import GrammarEvolution.Engine.Run
import GrammarEvolution.Proofs.Grammar.Built
import GrammarEvolution.Random.WordStream
import Mathlib.Algebra.GroupWithZero.Nat
import Mathlib.Data.Fintype.Basic
import Mathlib.Order.Interval.Finset.Nat

/-!
What the wheel selects.

Laid end to end, the shares of the operators are intervals of draws: an operator is selected by the
draws from the sum of the shares before its own up to the sum with its own. Of the 100 draws of a
round, those intervals keep what lies below 100, and what no share covers selects nothing. The
running totals are sums of words that stop at the largest word. They are then no longer the sums of
the shares, but no draw is large enough to notice.

* `toNat_runningTotals`: running totals are the exact ones, cut off at the largest word.
* `exactPlace_eq_some_iff`, `exactPlace_eq_none_iff`: what exact totals select.
* `ofShares_eq_ok_iff`: the shares of which a wheel can be made.
* `Engine.shares_apportioned`: what every draw of an engine's rounds selects.
-/

namespace GrammarEvolution

namespace Wheel

/-! ### Exact totals -/

section Totals

variable {shares : List UInt32} {draw i : Nat}

/-- The sum of the first so many shares. -/
def sumBefore (shares : List UInt32) (i : Nat) : Nat :=
  ((shares.take i).map UInt32.toNat).sum

@[simp] theorem sumBefore_zero (shares : List UInt32) : sumBefore shares 0 = 0 := by
  simp [sumBefore]

@[simp] theorem sumBefore_cons_succ (share : UInt32) (shares : List UInt32) (i : Nat) :
    sumBefore (share :: shares) (i + 1) = share.toNat + sumBefore shares i := by
  simp [sumBefore]

theorem sumBefore_succ (inside : i < shares.length) :
    sumBefore shares (i + 1) = sumBefore shares i + shares[i].toNat := by
  rw [sumBefore, List.take_add_one, List.getElem?_eq_getElem inside, List.map_append,
    List.sum_append]
  rfl

theorem sumBefore_of_length_le (beyond : shares.length ≤ i) :
    sumBefore shares i = (shares.map UInt32.toNat).sum := by
  rw [sumBefore, List.take_of_length_le beyond]

theorem sumBefore_mono (shares : List UInt32) : Monotone (sumBefore shares) := by
  refine monotone_nat_of_le_succ fun i => ?_
  by_cases inside : i < shares.length
  · exact sumBefore_succ inside ▸ Nat.le_add_right _ _
  · rw [sumBefore_of_length_le (Nat.le_of_not_lt inside), sumBefore_of_length_le (by omega)]

/-- The running totals of the shares, however large. -/
def exactTotals (shares : List UInt32) : List Nat :=
  (List.range shares.length).map fun i => sumBefore shares (i + 1)

/-- The place that a draw selects by exact totals. -/
def exactPlace (shares : List UInt32) (draw : Nat) : Option Nat :=
  (exactTotals shares).findIdx? (draw < ·)

/-- A place is selected by the draws from the sum of the shares before it on, up to the sum with its
own share. -/
theorem exactPlace_eq_some_iff :
    exactPlace shares draw = some i ↔
      sumBefore shares i ≤ draw ∧ draw < sumBefore shares (i + 1) := by
  rw [exactPlace, List.findIdx?_eq_some_iff_getElem]
  simp only [exactTotals, List.length_map, List.length_range, List.getElem_map, List.getElem_range,
    decide_eq_true_eq, Nat.not_lt]
  constructor
  · rintro ⟨-, below, before⟩
    refine ⟨?_, below⟩
    cases i with
    | zero => simp
    | succ i => exact before i (Nat.lt_succ_self i)
  · rintro ⟨reached, below⟩
    have inside : i < shares.length := by
      by_contra outside
      rw [sumBefore_of_length_le (by omega)] at reached below
      omega
    exact ⟨inside, below, fun j hj => (sumBefore_mono shares hj).trans reached⟩

theorem lt_length_of_exactPlace (selected : exactPlace shares draw = some i) :
    i < shares.length := by
  obtain ⟨inside, -⟩ := List.findIdx?_eq_some_iff_getElem.mp selected
  simpa [exactTotals] using inside

/-- A draw that selects no place is beyond all shares. -/
theorem exactPlace_eq_none_iff :
    exactPlace shares draw = none ↔ (shares.map UInt32.toNat).sum ≤ draw := by
  rw [exactPlace, List.findIdx?_eq_none_iff, ← sumBefore_of_length_le (Nat.le_refl shares.length)]
  simp only [exactTotals, List.mem_map, List.mem_range, decide_eq_false_iff_not, Nat.not_lt,
    forall_exists_index, and_imp, forall_apply_eq_imp_iff₂]
  constructor
  · intro beyond
    rcases Nat.eq_zero_or_pos shares.length with empty | inhabited
    · simp [empty]
    · have last := beyond (shares.length - 1) (by omega)
      rwa [Nat.sub_add_cancel inhabited] at last
  · exact fun beyond i hi => (sumBefore_mono shares hi).trans beyond

end Totals

/-! ### Totals that stop -/

theorem toNat_addUpTo (a b : UInt32) :
    (addUpTo a b).toNat = min (a.toNat + b.toNat) (UInt32.size - 1) := by
  unfold addUpTo
  split
  · rename_i fits
    rw [UInt32.toNat_add, Nat.mod_eq_of_lt fits]
    omega
  · change UInt32.size - 1 = _
    omega

/-- A total that has stopped stays where it is, as the exact total stays beyond it. -/
theorem toNat_runningTotals (sum : UInt32) (shares : List UInt32) :
    (runningTotals sum shares).map UInt32.toNat = (List.range shares.length).map fun i =>
      min (sum.toNat + sumBefore shares (i + 1)) (UInt32.size - 1) := by
  induction shares generalizing sum with
  | nil => rfl
  | cons share shares ih =>
    rw [runningTotals, List.map_cons, ih, List.length_cons, List.range_succ_eq_map, List.map_cons,
      List.map_map]
    congr 1
    · simp [toNat_addUpTo]
    · refine List.map_congr_left fun i _ => ?_
      simp only [Function.comp_apply, Nat.succ_eq_add_one, sumBefore_cons_succ, toNat_addUpTo]
      omega

variable {σ : Type} {w : Wheel σ} {operators : List (Operator σ)} {shares : List UInt32}

/-- Where a draw is below the largest word, totals that stop there select what the exact ones do. -/
theorem placeAt_eq_exactPlace {draw : Nat} (totals : w.thresholds = runningTotals 0 shares)
    (small : draw < UInt32.size - 1) : w.placeAt draw = exactPlace shares draw := by
  have place : w.placeAt draw = (w.thresholds.map UInt32.toNat).findIdx? (draw < ·) := by
    rw [List.findIdx?_map]
    rfl
  rw [place, totals, toNat_runningTotals, exactPlace, exactTotals, List.findIdx?_map,
    List.findIdx?_map]
  congr 1
  funext i
  simp only [Function.comp_apply, decide_eq_decide, UInt32.toNat_zero]
  omega

/-! ### Accepted shares -/

theorem checkShares_eq_ok_iff : checkShares shares = .ok () ↔ ∃ share ∈ shares, share ≠ 0 := by
  unfold checkShares
  split
  · rename_i zero
    refine iff_of_false nofun ?_
    rintro ⟨share, mem, positive⟩
    exact positive (beq_iff_eq.mp (List.all_eq_true.mp zero share mem))
  · rename_i positive
    refine iff_of_true rfl ?_
    simpa using positive

/-- A wheel is made of as many shares as operators, not all of them 0. -/
theorem ofShares_eq_ok_iff : ofShares operators shares = .ok w ↔
    operators.length = shares.length ∧ (∃ share ∈ shares, share ≠ 0) ∧
      w = ⟨operators, runningTotals 0 shares⟩ := by
  unfold ofShares
  constructor
  · intro made
    dsimp only at made
    split at made
    · cases made
    split at made
    · cases made
    rename_i paired
    obtain ⟨_, some, made⟩ := Except.bind_eq_ok_iff.mp made
    cases made
    exact ⟨not_not.mp paired, checkShares_eq_ok_iff.mp some, rfl⟩
  · rintro ⟨paired, some, rfl⟩
    have inhabited : operators.isEmpty = false := by
      obtain ⟨share, mem, -⟩ := some
      rw [List.isEmpty_eq_false_iff, ← List.length_pos_iff, paired]
      exact List.length_pos_of_mem mem
    rw [inhabited, if_neg nofun, if_neg (not_not.mpr paired), checkShares_eq_ok_iff.mpr some]
    rfl

/-! ### Apportionment -/

/-- The draws of a round that select a place. -/
def drawsOf (w : Wheel σ) (i : Nat) : Finset (Fin 100) :=
  Finset.univ.filter fun draw => w.placeAt draw = some i

/-- The draws of a round that select nothing. -/
def idleDraws (w : Wheel σ) : Finset (Fin 100) :=
  Finset.univ.filter fun draw => w.placeAt draw = none

/-- An interval of numbers has those of its draws that there are. -/
theorem map_draws {select : Fin 100 → Prop} [DecidablePred select] {low high : Nat}
    (h : ∀ draw, select draw ↔ low ≤ draw.val ∧ draw.val < high) :
    (Finset.univ.filter select).map Fin.valEmbedding =
      Finset.Ico (min 100 low) (min 100 high) := by
  ext draw
  simp only [h, Finset.mem_map, Finset.mem_filter, Finset.mem_univ, true_and,
    Fin.valEmbedding_apply, Finset.mem_Ico]
  constructor
  · rintro ⟨draw, selected, rfl⟩
    omega
  · intro inside
    exact ⟨⟨draw, by omega⟩, by dsimp only; omega, rfl⟩

section Draws

variable (totals : w.thresholds = runningTotals 0 shares)

include totals

theorem placeAt_of_draw (draw : Fin 100) : w.placeAt draw = exactPlace shares draw :=
  placeAt_eq_exactPlace totals (draw.isLt.trans (by decide))

theorem map_drawsOf (i : Nat) : (w.drawsOf i).map Fin.valEmbedding =
    Finset.Ico (min 100 (sumBefore shares i)) (min 100 (sumBefore shares (i + 1))) := by
  refine map_draws fun draw => ?_
  rw [placeAt_of_draw totals, exactPlace_eq_some_iff]

theorem map_idleDraws : w.idleDraws.map Fin.valEmbedding =
    Finset.Ico (min 100 (shares.map UInt32.toNat).sum) 100 := by
  have beyond : ∀ draw : Fin 100, w.placeAt draw = none ↔
      (shares.map UInt32.toNat).sum ≤ draw.val ∧ draw.val < 100 := by
    intro draw
    rw [placeAt_of_draw totals, exactPlace_eq_none_iff]
    exact (and_iff_left draw.isLt).symm
  exact map_draws beyond

end Draws

end Wheel

namespace Engine

open Wheel

variable {σ V : Type} [RandomSource σ]

/-- The rounds of an engine apply these operators, each with its share out of 100. -/
structure Apportions (e : Engine σ V) (operators : List (Operator σ)) (shares : List UInt32) :
    Prop where
  paired : operators.length = shares.length
  /-- A round applies the operator at the place that the exact totals tell. -/
  round : ∀ limit ranked selection, e.breedingRound limit ranked selection =
    roundBy (fun draw => (exactPlace shares draw).bind (operators[·]?)) limit ranked selection
  exact : ∀ draw : Fin 100, e.wheel.placeAt draw = exactPlace shares draw
  interval : ∀ i < operators.length, (e.wheel.drawsOf i).map Fin.valEmbedding =
    Finset.Ico (min 100 (sumBefore shares i)) (min 100 (sumBefore shares (i + 1)))
  card_drawsOf : ∀ i < operators.length, (e.wheel.drawsOf i).card =
    min 100 (sumBefore shares (i + 1)) - min 100 (sumBefore shares i)
  card_idleDraws : e.wheel.idleDraws.card = 100 - min 100 (shares.map UInt32.toNat).sum
  /-- An operator without a share is never selected. -/
  excluded : ∀ i, shares[i]? = some 0 → e.wheel.drawsOf i = ∅
  /-- Some draw selects an operator. -/
  selecting : ∃ draw : Fin 100, ∃ i, ∃ h : i < operators.length,
    draw ∈ e.wheel.drawsOf i ∧ e.wheel.operatorAt draw = some operators[i]

theorem apportions_of_ofShares {e : Engine σ V} {operators : List (Operator σ)}
    {shares : List UInt32} (made : Wheel.ofShares operators shares = .ok e.wheel) :
    e.Apportions operators shares := by
  obtain ⟨paired, ⟨share, mem, positive⟩, made⟩ := ofShares_eq_ok_iff.mp made
  have same : e.wheel.operators = operators := congrArg Wheel.operators made
  have totals : e.wheel.thresholds = runningTotals 0 shares := congrArg Wheel.thresholds made
  have operatorAt : ∀ draw : Fin 100,
      e.wheel.operatorAt draw = (exactPlace shares draw).bind (operators[·]?) := by
    intro draw
    rw [Wheel.operatorAt, placeAt_of_draw totals, same]
  have interval := map_drawsOf totals
  refine ⟨paired, ?_, placeAt_of_draw totals, fun i _ => interval i, fun i _ => ?_, ?_, ?_, ?_⟩
  · intro limit ranked selection
    rw [Engine.breedingRound, funext operatorAt]
  · rw [← Finset.card_map Fin.valEmbedding, interval, Nat.card_Ico]
  · rw [← Finset.card_map Fin.valEmbedding, map_idleDraws totals, Nat.card_Ico]
  · intro i zero
    obtain ⟨inside, zero⟩ := List.getElem?_eq_some_iff.mp zero
    rw [← Finset.map_eq_empty, interval, sumBefore_succ inside, zero]
    exact Finset.Ico_self _
  · -- The first operator with a share is selected by 0.
    have shared : 0 < (shares.map UInt32.toNat).sum :=
      List.sum_pos_iff_exists_pos_nat.mpr
        ⟨_, List.mem_map_of_mem mem, UInt32.pos_iff_ne_zero.mpr positive⟩
    have selects : exactPlace shares (0 : Fin 100) ≠ none :=
      exactPlace_eq_none_iff.not.mpr (Nat.not_le_of_lt shared)
    obtain ⟨i, place⟩ := Option.ne_none_iff_exists'.mp selects
    have inside : i < operators.length := paired ▸ lt_length_of_exactPlace place
    refine ⟨0, i, inside, ?_, ?_⟩
    · rw [drawsOf, Finset.mem_filter, placeAt_of_draw totals]
      exact ⟨Finset.mem_univ _, place⟩
    · rw [operatorAt, place]
      exact List.getElem?_eq_getElem inside

/-- **What every draw of a round selects.** Whatever operators and shares an engine accepts, its
rounds apply each operator with its share out of 100: by the draws from the exact sum of the shares
before its own up to that with its own, as far as there are such draws. Those beyond all shares
select nothing, an operator with the share 0 is never selected, and some operator is. The standard
operators are no exception. -/
theorem shares_apportioned (e : Engine σ V) :
    (∀ operators shares e', e.withOperators operators shares = .ok e' →
      e'.Apportions operators shares) ∧
    ∀ reproduction crossover mutation e', e.withShares reproduction crossover mutation = .ok e' →
      ∃ depths, DepthTable.ofGrammar e.grammar = .ok depths ∧
        e'.Apportions [.reproduction, .crossover e.grammar e.settings.maxDepth,
          .mutation e.grammar depths e.settings.maxDepth] [reproduction, crossover, mutation] := by
  constructor
  · intro operators shares e' change
    obtain ⟨w, made, change⟩ := Except.bind_eq_ok_iff.mp change
    cases change
    exact apportions_of_ofShares made
  · intro reproduction crossover mutation e' change
    obtain ⟨w, made, change⟩ := Except.bind_eq_ok_iff.mp change
    obtain ⟨_, -, made⟩ := Except.bind_eq_ok_iff.mp made
    obtain ⟨depths, table, made⟩ := Except.bind_eq_ok_iff.mp made
    cases change
    exact ⟨depths, table, apportions_of_ofShares made⟩

/-- Shares of 0, 60, the largest word twice and 2. The first operator is never selected, the second
by 60 draws, the third by the other 40, and no draw is left. -/
theorem shares_apportioned_overfull :
    let shares : List UInt32 := [0, 60, 0xffffffff, 0xffffffff, 2]
    let operators : List (Operator WordStream) := List.replicate 5 .reproduction
    ∃ e : Engine WordStream Nat, ∃ e', e.withOperators operators shares = .ok e' ∧
      e'.wheel.drawsOf 0 = ∅ ∧ (e'.wheel.drawsOf 1).card = 60 ∧ (e'.wheel.drawsOf 2).card = 40 ∧
      (e'.wheel.drawsOf 4).card = 0 ∧ e'.wheel.idleDraws.card = 0 := by
  intro shares operators
  let d : DepthTable := ⟨#[some 2, some 1]⟩
  let e : Engine WordStream Nat := {
    grammar := .pairs
    objective := ⟨fun _ _ => 0⟩
    settings := { maxDepth := 3, populationSize := 2, generations := 1 }
    genesis := Initializer.generate ⟨.pairs, d, 3⟩
    wheel := ⟨[], []⟩ }
  let e' : Engine WordStream Nat := { e with wheel := ⟨operators, runningTotals 0 shares⟩ }
  have accepted : e.withOperators operators shares = .ok e' := rfl
  have apportioned := (shares_apportioned e).1 operators shares e' accepted
  refine ⟨e, e', accepted, apportioned.excluded 0 rfl, ?_, ?_, ?_, ?_⟩
  · exact (apportioned.card_drawsOf 1 (by decide)).trans (by decide)
  · exact (apportioned.card_drawsOf 2 (by decide)).trans (by decide)
  · exact (apportioned.card_drawsOf 4 (by decide)).trans (by decide)
  · exact apportioned.card_idleDraws.trans (by decide)

end Engine

end GrammarEvolution
