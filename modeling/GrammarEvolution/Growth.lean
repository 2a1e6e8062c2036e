import GrammarEvolution.Grammar.Depth
import GrammarEvolution.Random.Source
import GrammarEvolution.Tree.Splice

/-!
Random derivations within a depth.

Growth gives every non-terminal one of its productions, chosen uniformly among those whose length
fits the depth that is left, and grows the right-hand side one level down, from left to right. As
lengths are heights of derivations, below a symbol that fits there is always a production that
fits. An `Initializer` grows whole populations.
-/

namespace GrammarEvolution

variable {V σ : Type} [RandomSource σ]

namespace Growth

/-- The productions of `s` whose length fits a depth. -/
def viable (g : Grammar V) (d : DepthTable) (s : SymbolId) (depth : Nat) : List ProductionId :=
  (g.productionsOf s).filter fun p => (d.productionLength p).any (· ≤ depth)

/-- One of the viable productions, chosen at random. -/
def chooseViable (g : Grammar V) (d : DepthTable) (s : SymbolId) (depth : Nat) :
    Sampling σ ProductionId := do
  match ← Sampling.choose (viable g d s depth) with
  | some p => return p
  | none => throw (.structural (.noFittingProduction (g.name s) depth))

/-- A random derivation of `s` no higher than a depth. A terminal grows into a leaf; a non-terminal
never fits a depth of 0, as no length is 0. -/
def grow (g : Grammar V) (d : DepthTable) : Nat → SymbolId → Sampling σ (Rose SymbolId)
  | 0, s =>
      if g.isNonTerminal s then throw (.structural (.noFittingProduction (g.name s) 0))
      else return .node s []
  | below + 1, s =>
      if g.isNonTerminal s then do
        let p ← chooseViable g d s (below + 1)
        return .node s (← (g.rhs p).mapM (grow g d below))
      else
        return .node s []

end Growth

/-- Grows populations from a grammar without exceeding a maximal depth. -/
structure Initializer (V : Type) where
  grammar : Grammar V
  depths : DepthTable
  maxDepth : Nat

namespace Initializer

/-- Fails when some non-terminal has no finite derivation. -/
def ofGrammar (g : Grammar V) (maxDepth : Nat) : Except Error (Initializer V) := do
  return ⟨g, ← DepthTable.ofGrammar g, maxDepth⟩

/-- So many independent trees, rooted at `root` or else at the start symbol, that fit below a node
at `currentDepth`. -/
def generate (i : Initializer V) (currentDepth populationSize : Nat) (root : Option SymbolId) :
    Sampling σ (List Tree) := do
  let root := root.getD i.grammar.start
  unless i.grammar.isNonTerminal root do
    throw (.config (.terminalRoot (i.grammar.name root)))
  let some required := i.depths.symbolLength i.grammar root
    | throw (.grammar (.noDerivation (i.grammar.name root)))
  let available := i.maxDepth - currentDepth
  if required > available then
    throw (.depthUnsatisfiable required available)
  (List.replicate populationSize root).mapM fun s => do
    return Tree.ofShape (← Growth.grow i.grammar i.depths available s)

end Initializer

end GrammarEvolution
