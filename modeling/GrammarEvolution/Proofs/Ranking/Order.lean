import GrammarEvolution.Ranking
import Mathlib.Logic.Function.Defs

/-!
The order in which candidates rank.

A candidate is ranked by its fitness and by its size, which together are its score. Fitness is
compared by the place of its bits in the total order of doubles, and no two patterns of bits have
the same place, be they numbers or not; so of two scores that differ, one ranks before the other.

* `Fitness.place_injective`: patterns of bits are told apart.
* `Fitness.isZero_iff`: what equals 0 is −0, 0 and nothing else.
* The instances `Std.TransOrd Score` and `Std.LawfulEqOrd Score`: scores are in a linear order.
* `preordered_candidates`: candidates are in a total preorder.
* `Candidate.compare_eq_eq_iff`: which candidates compare equal.
-/

namespace GrammarEvolution

/-! ### Fitness -/

namespace Fitness

/-- Without a sign the place is the magnitude, and with one it is below all of these. -/
theorem place_injective : Function.Injective place := by
  rintro ⟨x⟩ ⟨y⟩ same
  refine congrArg mk (UInt64.toNat_inj.mp ?_)
  unfold place at same
  dsimp only at same
  split at same <;> split at same <;> omega

instance : Std.TransOrd Fitness :=
  inferInstanceAs (Std.TransCmp (compareOn place))

instance : Std.LawfulEqOrd Fitness where
  eq_of_compare same := place_injective (Int.compare_eq_eq.mp same)

theorem le_trans {a b c : Fitness} (h : a ≤ b) (h' : b ≤ c) : a ≤ c :=
  Int.le_trans h h'

theorem le_of_lt_or_eq {a b : Fitness} (h : a < b ∨ a = b) : a ≤ b :=
  h.elim Int.le_of_lt fun same => Int.le_of_eq (congrArg place same)

/-- The two zeros equal 0, and nothing is between them. -/
theorem isZero_iff (f : Fitness) : f.isZero = true ↔ -0 ≤ f ∧ f ≤ 0 := by
  have negative : place (-0) = -1 := by decide
  have positive : place 0 = 0 := by decide
  change _ ↔ place (-0) ≤ f.place ∧ f.place ≤ place 0
  rw [isZero, Bool.or_eq_true, beq_iff_eq, beq_iff_eq, ← place_injective.eq_iff,
    ← place_injective.eq_iff (b := -0), negative, positive]
  omega

end Fitness

/-! ### Scores -/

/-- What a candidate is ranked by: its fitness, and its size. -/
structure Score where
  fitness : Fitness
  size : Nat
deriving DecidableEq

namespace Score

/-- The fitness decides, and where that is the same the size. -/
instance : Ord Score where
  compare := compareLex (compareOn Score.fitness) (compareOn Score.size)

instance : Std.TransOrd Score :=
  inferInstanceAs (Std.TransCmp (compareLex (compareOn Score.fitness) (compareOn Score.size)))

instance : Std.LawfulEqOrd Score where
  eq_of_compare {a b} same := by
    obtain ⟨fitness, size⟩ := compareLex_eq_eq.mp same
    have fitness := Std.LawfulEqOrd.eq_of_compare fitness
    have size := Nat.compare_eq_eq.mp size
    cases a
    cases b
    simp_all

end Score

/-! ### Candidates -/

/-- The comparison of a type is that of a total preorder, and its relations go by it. -/
structure Preordered (α : Type) [Ord α] [LE α] [LT α] [BEq α] : Prop where
  total : ∀ a b : α, a ≤ b ∨ b ≤ a
  trans : ∀ a b c : α, a ≤ b → b ≤ c → a ≤ c
  swap : ∀ a b : α, compare b a = (compare a b).swap
  le_iff : ∀ a b : α, a ≤ b ↔ compare a b ≠ .gt
  lt_iff : ∀ a b : α, a < b ↔ compare a b = .lt
  beq_iff : ∀ a b : α, (a == b) = true ↔ compare a b = .eq

namespace Candidate

def score (c : Candidate) : Score :=
  ⟨c.fitness, c.size⟩

theorem compare_eq_score (a b : Candidate) : compare a b = compare a.score b.score :=
  rfl

instance : Std.TransOrd Candidate :=
  inferInstanceAs (Std.TransCmp (compareOn Candidate.score))

/-- Candidates compare equal when they have the same fitness, bit by bit, and the same size. -/
theorem compare_eq_eq_iff (a b : Candidate) :
    compare a b = .eq ↔ a.fitness = b.fitness ∧ a.size = b.size := by
  rw [compare_eq_score, Std.LawfulEqOrd.compare_eq_iff_eq, score, score, Score.mk.injEq]

end Candidate

theorem preordered_candidates : Preordered Candidate where
  total a b := by
    change (compare a b).isLE = true ∨ (compare b a).isLE = true
    rw [Std.OrientedOrd.eq_swap (a := b)]
    cases compare a b <;> simp
  trans _ _ _ := Std.TransCmp.isLE_trans
  swap _ _ := Std.OrientedOrd.eq_swap
  le_iff a b := by
    change (compare a b).isLE = true ↔ _
    cases compare a b <;> simp
  lt_iff _ _ := Iff.rfl
  beq_iff a b := by
    change (compare a b == .eq) = true ↔ _
    exact beq_iff_eq

end GrammarEvolution
