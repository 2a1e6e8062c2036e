import GrammarEvolution.Growth
import GrammarEvolution.Operator.Basic
import GrammarEvolution.Random.Pool

/-!
Mutation: one non-terminal subtree is replaced by a freshly grown one.

The positions are tried in random order, and at each the legal symbols in random order. The first
symbol that fits the depth left below its position is grown there; without one there is no
offspring.
-/

namespace GrammarEvolution

namespace Mutation

variable {V σ : Type} [RandomSource σ] (g : Grammar V) (d : DepthTable) (maxDepth : Nat)

/-- Grows a legal symbol in place of the node `n`, the first that fits in random order. -/
def mutateAt (t : Tree) (n : Nat) : Sampling σ (Option Tree) := do
  let depth := maxDepth - t.depth n
  let legal ← g.replacementSymbols t n
  Pool.firstDrawn legal fun s => do
    if !d.fits g s depth then
      return none
    let grown ← Growth.grow g d depth s
    return some (← t.replace n (Tree.ofShape grown))

/-- The offspring of a parent: one tree or none. -/
def mutate (t : Tree) : Sampling σ (List Tree) := do
  let offspring ← Pool.firstDrawn (t.nonRootNodes g.isNonTerminal) fun n =>
    mutateAt g d maxDepth t n
  return offspring.toList

end Mutation

/-- Mutates the first parent. -/
def Operator.mutation {V σ : Type} [RandomSource σ] (g : Grammar V) (d : DepthTable)
    (maxDepth : Nat) : Operator σ where
  evolve
    | t :: _ => Mutation.mutate g d maxDepth t
    | [] => throw (.config .mutationParents)

end GrammarEvolution
