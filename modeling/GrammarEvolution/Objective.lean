import GrammarEvolution.Fitness
import GrammarEvolution.Grammar.Evaluation

/-!
Objectives: what makes a tree fit.

An objective may give any fitness. One that is made of examples sums the distances between what a
tree should answer and what it does; a tree that has no value on some example is infinitely far from
it. Distances are added up as doubles, so of the sums that are no numbers it gives only one.
-/

namespace GrammarEvolution

/-- A fitness for the trees of a grammar. -/
structure Objective (V : Type) where
  fitness : Grammar V → Tree → Fitness

/-- One input, as bindings, and the value that a tree should have there. -/
structure Example (V : Type) where
  bindings : List V
  target : V

namespace Objective

variable {V : Type}

/-- The distance of a tree from one example. -/
def errorOn (distance : V → V → Float) (g : Grammar V) (t : Tree) (e : Example V) : Float :=
  match g.eval e.bindings t with
  | .ok actual => distance e.target actual
  | .error _ => 1.0 / 0.0

/-- The sum of the distances from all examples, in order, added up from −0. -/
def ofExamples (examples : List (Example V)) (distance : V → V → Float) : Objective V where
  fitness g t := .ofFloat ((examples.map (errorOn distance g t)).foldl (· + ·) (-0.0))

end Objective

end GrammarEvolution
