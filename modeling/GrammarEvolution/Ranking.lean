import GrammarEvolution.Fitness
import GrammarEvolution.Tree.Basic

/-!
Ranking trees by fitness.

Candidates are ordered by fitness and, where that is the same, by size, so that of two equally fit
trees the smaller ranks first.
-/

namespace GrammarEvolution

/-- A tree with its fitness and its number of nodes. -/
structure Candidate where
  tree : Tree
  fitness : Fitness
  size : Nat := tree.size
  size_eq : size = tree.size := by rfl

namespace Candidate

/-- Fitness first, then size. -/
instance : Ord Candidate where
  compare a b := (compare a.fitness b.fitness).then (compare a.size b.size)

instance : BEq Candidate where
  beq a b := compare a b == .eq

instance : LT Candidate := ltOfOrd

instance : LE Candidate := leOfOrd

/-- A tree with the fitness that was answered for it. -/
def ofAnswer {F : Type} [ToFitness F] (tree : Tree) (answer : F) : Candidate :=
  { tree, fitness := toFitness answer }

end Candidate

/-- Asks for the fitness of every tree once, in order, and sorts the candidates, best first.
Candidates that compare equal stay in order. -/
def rankBy {m : Type → Type} [Monad m] {F : Type} [ToFitness F] (fitness : Tree → m F)
    (trees : List Tree) : m (List Candidate) := do
  let candidates ← trees.mapM fun tree => return .ofAnswer tree (← fitness tree)
  return candidates.mergeSort fun a b => (compare a b).isLE

/-- The candidates of a fitness function, best first. -/
def rank (fitness : Tree → Fitness) (trees : List Tree) : List Candidate :=
  Id.run (rankBy (fun tree => pure (fitness tree)) trees)

end GrammarEvolution
