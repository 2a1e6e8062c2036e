import GrammarEvolution.Engine.Wheel
import GrammarEvolution.Objective
import GrammarEvolution.Ranking
import GrammarEvolution.Selection
import GrammarEvolution.Settings

/-!
The setup of a run, and what a run reports.

An engine is a grammar, an objective, settings, a source of initial populations and a wheel of
operators. A run emits events as it goes and comes to one of three endings: it finishes with its
last generation, it fails, or the limit set by its caller is used up. The last is not a failure; a
higher limit may finish the run.
-/

namespace GrammarEvolution

/-- Makes an initial population for a position at `currentDepth`, rooted at `root` or else at the
start symbol. -/
abbrev Genesis (σ : Type) :=
  (currentDepth populationSize : Nat) → (root : Option SymbolId) → Sampling σ (List Tree)

structure Engine (σ V : Type) where
  grammar : Grammar V
  objective : Objective V
  settings : Settings
  genesis : Genesis σ
  wheel : Wheel σ

namespace Engine

variable {σ V : Type} [RandomSource σ]

/-- The engine that grows its initial population and applies the standard operators, with shares
of 5, 90 and 2 out of 100. -/
def ofGrammar (g : Grammar V) (objective : Objective V) (settings : Settings) :
    Except Error (Engine σ V) := do
  if settings.populationSize < 2 then
    throw (.config (.populationTooSmall settings.populationSize))
  let initializer ← Initializer.ofGrammar g settings.maxDepth
  let wheel ← Wheel.standard g settings.maxDepth 5 90 2
  return { grammar := g, objective, settings, genesis := initializer.generate, wheel }

/-- The engine with other shares for the standard operators. -/
def withShares (e : Engine σ V) (reproduction crossover mutation : UInt32) :
    Except Error (Engine σ V) := do
  let wheel ← Wheel.standard e.grammar e.settings.maxDepth reproduction crossover mutation
  return { e with wheel }

omit [RandomSource σ] in
/-- The engine with other operators. -/
def withOperators (e : Engine σ V) (operators : List (Operator σ)) (shares : List UInt32) :
    Except Error (Engine σ V) := do
  return { e with wheel := ← Wheel.ofShares operators shares }

end Engine

/-! ### Reports -/

/-- What a run reports while it goes on. -/
inductive Event where
  /-- A generation has been ranked, best first. -/
  | ranked (generation : Nat) (candidates : List Candidate)
  /-- So many rounds in a row gave no offspring, with so many places of the next generation
  filled. -/
  | barren (rounds filled : Nat)

/-- How a run ends. -/
inductive Ending where
  | finished (last : List Candidate)
  | failed (error : Error)
  /-- The limit was used up. -/
  | unfinished

/-- The events of a run, in order, and its ending. -/
structure Run where
  events : List Event
  ending : Ending

end GrammarEvolution
