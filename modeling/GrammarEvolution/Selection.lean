import GrammarEvolution.Random.Source

/-!
Rank-proportional selection.

Of `n` ranks, rank `i` is chosen with probability `(n - i) / (n (n + 1) / 2)`: the best is `n`
times as likely as the worst. A fraction chooses the first rank whose running total exceeds it. The
totals are sums of rounded shares and may end just below 1; a fraction above them all chooses the
best rank.
-/

namespace GrammarEvolution

/-- The running totals of the shares of `n` ranks. -/
structure RankSelection (n : Nat) where
  totals : Vector Float n

namespace RankSelection

/-- The share of rank `i` among `n`. -/
def share (n i : Nat) : Float :=
  (n.toFloat - i.toFloat) / (n.toFloat * (n.toFloat + 1) / 2)

/-- Running totals from `sum` on. -/
def runningTotals (sum : Float) : List Float → List Float
  | [] => []
  | x :: xs => (sum + x) :: runningTotals (sum + x) xs

@[simp] theorem length_runningTotals (sum : Float) (xs : List Float) :
    (runningTotals sum xs).length = xs.length := by
  induction xs generalizing sum with
  | nil => rfl
  | cons x xs ih => simp [runningTotals, ih]

def ofSize (n : Nat) : RankSelection n :=
  ⟨⟨(runningTotals 0 ((List.range n).map (share n))).toArray, by simp⟩⟩

/-- The rank that a fraction chooses. -/
def rankAt {n : Nat} (s : RankSelection n) (h : 0 < n) (r : Float) : Fin n :=
  ((List.finRange n).find? fun i => r < s.totals[i]).getD ⟨0, h⟩

variable {σ : Type} [RandomSource σ]

/-- A random rank. -/
def pick {n : Nat} (s : RankSelection n) (h : 0 < n) : StateM σ (Fin n) :=
  return s.rankAt h (← modifyGet RandomSource.fraction)

end RankSelection

end GrammarEvolution
