import GrammarEvolution.Operator.Crossover
import GrammarEvolution.Operator.Mutation

/-!
Which operator a breeding round applies.

Every operator has a share out of 100. The shares laid end to end divide a wheel; a draw below 100
falls into the share of one operator, or beyond them all and selects none. Running totals stop at
the largest 32-bit number, which is far beyond any draw.
-/

namespace GrammarEvolution

/-- Operators, and for each the running total of the shares up to its own. -/
structure Wheel (σ : Type) where
  operators : List (Operator σ)
  thresholds : List UInt32

namespace Wheel

/-- The sum of two words, or the largest word if that is too large. -/
def addUpTo (a b : UInt32) : UInt32 :=
  if a.toNat + b.toNat < UInt32.size then a + b else 0xffffffff

/-- Running totals from `sum` on. -/
def runningTotals (sum : UInt32) : List UInt32 → List UInt32
  | [] => []
  | share :: shares => addUpTo sum share :: runningTotals (addUpTo sum share) shares

variable {σ : Type}

/-- Refuses shares that are all 0, which would never select an operator. -/
def checkShares (shares : List UInt32) : Except Error Unit :=
  if shares.all (· == 0) then throw (.config (.allSharesZero (shares.map UInt32.toNat)))
  else pure ()

/-- The wheel on which each operator has its share. -/
def ofShares (operators : List (Operator σ)) (shares : List UInt32) :
    Except Error (Wheel σ) := do
  if operators.isEmpty then
    throw (.config .noOperators)
  if operators.length ≠ shares.length then
    throw (.config (.shareCount operators.length shares.length))
  checkShares shares
  return ⟨operators, runningTotals 0 shares⟩

/-- The place of the operator that a draw selects. -/
def placeAt (w : Wheel σ) (draw : Nat) : Option Nat :=
  w.thresholds.findIdx? fun threshold => draw < threshold.toNat

/-- The operator that a draw selects. -/
def operatorAt (w : Wheel σ) (draw : Nat) : Option (Operator σ) :=
  (w.placeAt draw).bind (w.operators[·]?)

theorem mem_of_operatorAt {w : Wheel σ} {draw : Nat} {operator : Operator σ}
    (h : w.operatorAt draw = some operator) : operator ∈ w.operators := by
  obtain ⟨place, -, here⟩ := Option.bind_eq_some_iff.mp h
  exact List.mem_of_getElem? here

/-- Reproduction, crossover and mutation with these shares. -/
def standard {V : Type} [RandomSource σ] (g : Grammar V) (maxDepth : Nat)
    (reproduction crossover mutation : UInt32) : Except Error (Wheel σ) := do
  let shares := [reproduction, crossover, mutation]
  checkShares shares
  let depths ← DepthTable.ofGrammar g
  ofShares [.reproduction, .crossover g maxDepth, .mutation g depths maxDepth] shares

end Wheel

end GrammarEvolution
