import GrammarEvolution.Operator.Basic
import GrammarEvolution.Random.Pool
import GrammarEvolution.Tree.Splice

/-!
Crossover: two parents exchange one subtree each.

The non-terminal positions of the first parent are tried in random order. For each, the positions
of the second parent that hold a legal replacement are tried, again in random order, until one is
found where both offspring keep within the depth and where the first subtree is legal too. The
first such pair is exchanged; without one there are no offspring.
-/

namespace GrammarEvolution

namespace Crossover

variable {V σ : Type} (g : Grammar V) (maxDepth : Nat)

/-- Whether exchanging the subtrees at two nodes keeps both trees within the depth. -/
def keepsDepth (t₁ : Tree) (a : Nat) (t₂ : Tree) (b : Nat) : Bool :=
  t₁.depth a + t₂.heightAt b ≤ maxDepth && t₂.depth b + t₁.heightAt a ≤ maxDepth

/-- Whether the symbol at `a` in `t₁` may stand at `b` in `t₂`. -/
def mayStandAt (t₁ : Tree) (a : Nat) (t₂ : Tree) (b : Nat) : Except Error Bool := do
  if t₁.symbol a = t₂.symbol b then
    return true
  let (parent, place) ← t₂.position b
  let below := (t₂.childSymbols parent).set place (t₁.symbol a)
  return g.hasProduction (t₂.symbol parent) below

/-- Exchanges the subtrees at two nodes if both trees keep within the depth and the first subtree
may stand where the second was. -/
def exchange (t₁ : Tree) (a : Nat) (t₂ : Tree) (b : Nat) : Except Error (Option (List Tree)) := do
  if !keepsDepth maxDepth t₁ a t₂ b then
    return none
  unless ← mayStandAt g t₁ a t₂ b do
    return none
  let (o₁, o₂) ← t₁.swap a t₂ b
  return some [o₁, o₂]

variable [RandomSource σ]

/-- Looks for a partner of the node `a` and exchanges the two subtrees. -/
def crossAt (t₁ : Tree) (a : Nat) (t₂ : Tree) : Sampling σ (Option (List Tree)) := do
  let legal ← g.replacementSymbols t₁ a
  Pool.firstDrawn (t₂.nonRootNodes legal.contains) fun b => do
    exchange g maxDepth t₁ a t₂ b

/-- The offspring of two parents: two trees or none. -/
def cross (t₁ t₂ : Tree) : Sampling σ (List Tree) := do
  let offspring ← Pool.firstDrawn (t₁.nonRootNodes g.isNonTerminal) fun a =>
    crossAt g maxDepth t₁ a t₂
  return offspring.getD []

end Crossover

/-- Crosses the first two parents. -/
def Operator.crossover {V σ : Type} [RandomSource σ] (g : Grammar V) (maxDepth : Nat) :
    Operator σ where
  evolve
    | t₁ :: t₂ :: _ => Crossover.cross g maxDepth t₁ t₂
    | parents => throw (.config (.crossoverParents parents.length))

end GrammarEvolution
