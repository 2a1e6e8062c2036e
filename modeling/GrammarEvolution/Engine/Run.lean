import GrammarEvolution.Engine.Basic

/-!
Runs: ranking and breeding in turn.

A generation is ranked and reported. Unless it is the last, the next is bred: round after round
picks two different ranks, draws an operator from the wheel and appends its offspring, until the
population is full; what is too many is cut off. Rounds may stay empty for ever, and so may the
search for a second rank, so both stop at a limit.
-/

namespace GrammarEvolution

/-- Why a run stops before its last generation. -/
inductive Halt where
  | failed (error : Error)
  | unfinished

/-- A computation that reports events, draws, and may halt. -/
abbrev Course (σ : Type) := ExceptT Halt (StateT (Array Event) (StateM σ))

namespace Course

variable {σ α : Type}

def report (event : Event) : Course σ Unit :=
  modify (·.push event)

/-- A sampling as part of a run. -/
def sample (x : Sampling σ α) : Course σ α :=
  ExceptT.mk do
    match ← (x.run : StateM σ _) with
    | .ok a => return .ok a
    | .error error => return .error (.failed error)

end Course

namespace Engine

variable {σ V : Type} [RandomSource σ] (e : Engine σ V)

/-! ### Breeding -/

/-- A random rank other than `taken`, in at most so many picks. -/
def pickOther {n : Nat} (s : RankSelection n) (h : 0 < n) (taken : Fin n) :
    Nat → Course σ (Fin n)
  | 0 => throw .unfinished
  | limit + 1 => do
      let i ← (s.pick h : StateM σ _)
      if i = taken then pickOther s h taken limit else return i

/-- One round: the offspring of two candidates at different ranks. `operatorAt` tells the operator
that a draw selects. -/
def roundBy (operatorAt : Fin 100 → Option (Operator σ)) (limit : Nat) (ranked : List Candidate)
    (selection : RankSelection ranked.length) : Course σ (List Tree) := do
  if h : 0 < ranked.length then
    let first ← (selection.pick h : StateM σ _)
    let second ← pickOther selection h first limit
    let draw ← Course.sample (Sampling.index32 100 (by decide))
    match operatorAt draw with
    | some operator => Course.sample (operator.evolve [ranked[first].tree, ranked[second].tree])
    | none => return []
  else
    throw (.failed (.config .emptyPopulation))

/-- A round with the operators of the wheel. -/
def breedingRound (limit : Nat) (ranked : List Candidate)
    (selection : RankSelection ranked.length) : Course σ (List Tree) :=
  roundBy (e.wheel.operatorAt ·) limit ranked selection

/-- The number of empty rounds in a row after which a run reports them, time and again. -/
def barrenRounds : Nat := 1000

/-- Appends the offspring of rounds to `next` until the population is full. `barren` counts the
empty rounds since the last offspring. -/
def fill (limit : Nat) (ranked : List Candidate) (selection : RankSelection ranked.length) :
    (rounds barren : Nat) → (next : List Tree) → Course σ (List Tree)
  | rounds, barren, next =>
      if e.settings.populationSize ≤ next.length then
        return next.take e.settings.populationSize
      else
        match rounds with
        | 0 => throw .unfinished
        | rounds + 1 => do
            let offspring ← e.breedingRound limit ranked selection
            if offspring.isEmpty then
              if (barren + 1) % barrenRounds = 0 then
                Course.report (.barren (barren + 1) next.length)
              fill limit ranked selection rounds (barren + 1) next
            else
              fill limit ranked selection rounds 0 (next ++ offspring)

/-- The next generation. -/
def breed (limit : Nat) (ranked : List Candidate) : Course σ (List Tree) :=
  e.fill limit ranked (RankSelection.ofSize ranked.length) limit 0 []

/-! ### Generations -/

/-- Whether a run may stop at a ranked generation before the last: its best has fitness 0. -/
def isOptimal (ranked : List Candidate) : Bool :=
  ranked.head?.any (·.fitness.isZero)

/-- Ranks a population as generation `number`, and breeds on for so many generations more unless
it may stop there. Answers the last generation ranked. -/
def evolve (limit : Nat) : (more number : Nat) → List Tree → Course σ (List Candidate)
  | more, number, population => do
      let ranked := rank (e.objective.fitness e.grammar) population
      Course.report (.ranked number ranked)
      if e.settings.terminateOnOptimum && isOptimal ranked then
        return ranked
      match more with
      | 0 => return ranked
      | more + 1 => evolve limit more (number + 1) (← e.breed limit ranked)

/-- The whole course of a run: the initial population needs two trees at least. -/
def course (limit : Nat) : Course σ (List Candidate) := do
  let population ← Course.sample (e.genesis 0 e.settings.populationSize none)
  if population.length < 2 then
    throw (.failed (.config (.initialPopulationTooSmall population.length)))
  e.evolve limit e.settings.generations 0 population

/-- Runs the engine. In every breeding, rounds and picks of a second rank are limited to `limit`;
a run that finishes under some limit does the same under every higher one. -/
def run (limit : Nat) : StateM σ Run := do
  let (result, events) ← (e.course limit).run.run #[]
  let ending := match result with
    | .ok last => .finished last
    | .error (.failed error) => .failed error
    | .error .unfinished => .unfinished
  return ⟨events.toList, ending⟩

end Engine

end GrammarEvolution
