import GrammarEvolution.Grammar.Basic
import GrammarEvolution.Random.Source

/-!
Genetic operators.

An operator makes offspring of parents, at random. It may fail; finding no legal move is no
failure, it answers no offspring. The positions that operators work on are the nodes other than
the root, and what may stand at a position is told by `replacementSymbols`.
-/

namespace GrammarEvolution

/-- Offspring from parents. -/
structure Operator (σ : Type) where
  evolve : List Tree → Sampling σ (List Tree)

namespace Operator

/-- Answers the first parent again. -/
def reproduction {σ : Type} : Operator σ where
  evolve
    | parent :: _ => return [parent]
    | [] => throw (.config .reproductionParents)

end Operator

/-- The nodes other than the root whose symbol is to be kept, in pre-order. -/
def Tree.nonRootNodes (t : Tree) (keep : SymbolId → Bool) : List Nat :=
  t.preorder.filter fun n => n ≠ t.root ∧ keep (t.symbol n)

/-- The symbols of the children of a node. -/
def Tree.childSymbols (t : Tree) (n : Nat) : List SymbolId :=
  (t.children n).map t.symbol

namespace Grammar

variable {V : Type} (g : Grammar V)

/-- Whether two right-hand sides are alike when the symbol at one place is blotted out. -/
def alikeBut (place : Nat) (rhs current : List SymbolId) : Bool :=
  rhs.set place 0 == current.set place 0

/-- The symbols that may stand in place of a node without breaking the derivation step above it:
those that a production of its parent's symbol has there, all else being as it is. -/
def replacementSymbols (t : Tree) (n : Nat) : Except Error (List SymbolId) := do
  let (parent, place) ← t.position n
  let current := t.childSymbols parent
  let fitting := ((g.productionsOf (t.symbol parent)).map g.rhs).filter (alikeBut place · current)
  return (fitting.filterMap (·[place]?)).eraseDups

end Grammar

end GrammarEvolution
