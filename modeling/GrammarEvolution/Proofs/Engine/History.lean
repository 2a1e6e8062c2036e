import GrammarEvolution.Proofs.Engine.Breeding
import GrammarEvolution.Proofs.Grammar.Built
import GrammarEvolution.Proofs.Ranking
import GrammarEvolution.Proofs.Script

/-!
The history of a run.

`Lineage` is a sequence of generations, each bred from the one before, and `History` is such a
sequence from an initial population to the end of a run; neither knows of limits or reports. What a
run that is not cut short reports and answers is told by a history, and every history is that of a
run: one that breaks off, because an operator fails, is that of a run that fails in the same way.

* `evolve_cases`, `run_cases`: an evolution is cut short, or follows a lineage to its end.
* `Evolves.evolve_eq`, `History.run_eq`: under every limit that is high enough it is not cut short.
* `Lineage.account`: how the generations of a lineage are related.
* `run_history`: the generations of every run that finishes, and of every run that fails.
-/

namespace GrammarEvolution

open Course

namespace Engine

variable {σ V : Type} [RandomSource σ]

/-! ### Lineages -/

omit [RandomSource σ] in
/-- The ranking of a population by the objective of an engine. -/
def ranking (e : Engine σ V) (population : List Tree) : List Candidate :=
  rank (e.objective.fitness e.grammar) population

omit [RandomSource σ] in
/-- Whether a run stops at a generation though there is time for more. -/
def stopsAt (e : Engine σ V) (ranked : List Candidate) : Bool :=
  e.settings.terminateOnOptimum && isOptimal ranked

/-- Generations from which others are bred, each from the one before, and the population that is
bred from the last of them. -/
inductive Lineage (e : Engine σ V) :
    List Tree → σ → List (List Candidate) → List Tree → σ → Prop where
  | nil {population : List Tree} {s : σ} : Lineage e population s [] population s
  | cons {population next last : List Tree} {earlier : List (List Candidate)} {s s' s'' : σ} :
      e.stopsAt (e.ranking population) = false →
      Breeds e (e.ranking population) [] s (.ok next) s' →
      Lineage e next s' earlier last s'' →
      Lineage e population s (e.ranking population :: earlier) last s''

/-- All generations of an evolution that breeds at most `more` times: it answers the last of them,
or the breeding from the last one breaks off. -/
inductive Evolves (e : Engine σ V) (more : Nat) (population : List Tree) (s : σ) :
    List (List Candidate) → Except Error (List Candidate) → σ → Prop where
  | finished {earlier : List (List Candidate)} {last : List Tree} {s' : σ} :
      Lineage e population s earlier last s' → earlier.length ≤ more →
      earlier.length = more ∨ e.stopsAt (e.ranking last) = true →
      Evolves e more population s (earlier ++ [e.ranking last]) (.ok (e.ranking last)) s'
  | failed {earlier : List (List Candidate)} {last : List Tree} {s' s'' : σ} {error : Error} :
      Lineage e population s earlier last s' → earlier.length < more →
      e.stopsAt (e.ranking last) = false →
      Breeds e (e.ranking last) [] s' (.error error) s'' →
      Evolves e more population s (earlier ++ [e.ranking last]) (.error error) s''

/-- The history of a run from a state of the source: the initial population, all generations, and
the answer. -/
inductive History (e : Engine σ V) (s : σ) :
    List Tree → List (List Candidate) → Except Error (List Candidate) → Prop where
  | intro {population : List Tree} {generations : List (List Candidate)}
      {answer : Except Error (List Candidate)} {s' : σ} :
      (e.genesis 0 e.settings.populationSize none).answer s = .ok population →
      2 ≤ population.length →
      Evolves e e.settings.generations population
        ((e.genesis 0 e.settings.populationSize none).rest s) generations answer s' →
      History e s population generations answer

variable {e : Engine σ V} {population : List Tree} {s s' : σ} {more : Nat}
  {generations : List (List Candidate)} {answer : Except Error (List Candidate)}

theorem evolves_stop (h : more = 0 ∨ e.stopsAt (e.ranking population) = true) :
    Evolves e more population s [e.ranking population] (.ok (e.ranking population)) s :=
  .finished .nil (Nat.zero_le more) (h.imp_left Eq.symm)

/-- A generation may be put before an evolution. -/
theorem Evolves.cons {next : List Tree} {s'' : σ}
    (goesOn : e.stopsAt (e.ranking population) = false)
    (bred : Breeds e (e.ranking population) [] s (.ok next) s')
    (h : Evolves e more next s' generations answer s'') :
    Evolves e (more + 1) population s (e.ranking population :: generations) answer s'' := by
  cases h with
  | finished lineage bound stop =>
      refine .finished (lineage.cons goesOn bred) (by simpa using bound) ?_
      simpa using stop
  | failed lineage bound goesOn' failure =>
      exact .failed (lineage.cons goesOn bred) (by simpa using bound) goesOn' failure

/-- The history of a run that breeds once. -/
theorem History.of_breeds {next : List Tree} {first second : List Candidate} {s'' : σ}
    (initial : (e.genesis 0 e.settings.populationSize none).answer s = .ok population)
    (grown : (e.genesis 0 e.settings.populationSize none).rest s = s')
    (two : 2 ≤ population.length) (once : e.settings.generations = 1)
    (ranked : e.ranking population = first) (goesOn : e.stopsAt first = false)
    (bred : Breeds e first [] s' (.ok next) s'') (ranked' : e.ranking next = second) :
    History e s population [first, second] (.ok second) := by
  subst ranked ranked' grown
  have evolves := (evolves_stop (.inl rfl)).cons goesOn bred
  rw [Nat.zero_add, ← once] at evolves
  exact .intro initial two evolves

/-- The history of a run whose first breeding breaks off. -/
theorem History.of_failure {first : List Candidate} {error : Error} {s'' : σ}
    (initial : (e.genesis 0 e.settings.populationSize none).answer s = .ok population)
    (grown : (e.genesis 0 e.settings.populationSize none).rest s = s')
    (two : 2 ≤ population.length) (more : 0 < e.settings.generations)
    (ranked : e.ranking population = first) (goesOn : e.stopsAt first = false)
    (failure : Breeds e first [] s' (.error error) s'') :
    History e s population [first] (.error error) := by
  subst ranked grown
  exact .intro initial two (.failed .nil more goesOn failure)

/-! ### What evolutions come to -/

section Generation

variable (limit number : Nat) (log : Array Event) (s : σ)

theorem evolve_stop (h : more = 0 ∨ e.stopsAt (e.ranking population) = true) :
    (e.evolve limit more number population).result log s =
      ((.ok (e.ranking population), log.push (.ranked number (e.ranking population))), s) := by
  unfold evolve
  rw [result_bind]
  change Course.result (if e.stopsAt (e.ranking population) then _ else _) _ _ = _
  split
  · rfl
  · obtain rfl := h.resolve_right ‹_›
    rfl

theorem evolve_more (more : Nat) (goesOn : e.stopsAt (e.ranking population) = false) :
    (e.evolve limit (more + 1) number population).result log s =
      (e.breed limit (e.ranking population) >>= e.evolve limit more (number + 1)).result
        (log.push (.ranked number (e.ranking population))) s := by
  rw [evolve, result_bind]
  change Course.result (if e.stopsAt (e.ranking population) then _ else _) _ _ = _
  rw [if_neg (by simp [goesOn])]
  rfl

end Generation

/-- **What an evolution comes to.** Unless it is cut short, it follows a lineage to its end and
reports all its generations. -/
theorem evolve_cases (limit more number : Nat) (population : List Tree) (log : Array Event) (s : σ)
    (inhabited : 0 < e.settings.populationSize → 0 < population.length) :
    (e.evolve limit more number population).CutShort log s ∨
    ∃ generations answer s' log', Evolves e more population s generations answer s' ∧
      rankings log'.toList = rankings log.toList ++ generations.zipIdx number ∧
      (e.evolve limit more number population).result log s =
        ((answer.mapError .failed, log'), s') := by
  induction more generalizing number population log s with
  | zero =>
      exact .inr ⟨_, _, _, _, evolves_stop (.inl rfl), by simp,
        evolve_stop limit number log s (.inl rfl)⟩
  | succ more ih =>
      rcases goesOn : e.stopsAt (e.ranking population) with _ | _
      · have room : 0 < e.settings.populationSize → 0 < (e.ranking population).length := by
          rwa [ranking, length_rank]
        unfold CutShort
        rw [evolve_more limit number log s more goesOn]
        rcases fill_cases room limit limit 0 [] (log.push (.ranked number (e.ranking population))) s
          with short | ⟨answer, s', log', breeds, kept, bred⟩
        · exact .inl (CutShort.bind short _)
        · rw [result_bind, breed, bred]
          cases answer with
          | error error =>
              have ended : Evolves e (more + 1) population s [e.ranking population]
                  (.error error) s' :=
                .failed .nil (Nat.succ_pos more) goesOn breeds
              exact .inr ⟨_, _, _, _, ended, by simp [kept], rfl⟩
          | ok next =>
              -- What is bred is a full population, so there is something to breed from again.
              have room : 0 < e.settings.populationSize → 0 < next.length := by
                rw [breeds.length_eq]
                exact id
              rcases ih (number + 1) next log' s' room with
                short | ⟨generations, answer, s'', log'', evolves, reported, ended⟩
              · exact .inl short
              · refine .inr ⟨_, _, _, _, evolves.cons goesOn breeds, ?_, ended⟩
                simp [reported, kept, List.zipIdx_cons]
      · exact .inr ⟨_, _, _, _, evolves_stop (.inr goesOn), by simp,
          evolve_stop limit number log s (.inr goesOn)⟩

/-! ### What every limit that is high enough leaves room for -/

theorem Lineage.evolve_eq {earlier : List (List Candidate)} {last : List Tree}
    (h : Lineage e population s earlier last s') :
    ∃ enough, ∀ limit, enough ≤ limit → ∀ more number log, ∃ log',
      rankings log'.toList = rankings log.toList ++ earlier.zipIdx number ∧
        (e.evolve limit (more + earlier.length) number population).result log s =
          (e.evolve limit more (number + earlier.length) last).result log' s' := by
  induction h with
  | nil =>
      refine ⟨0, ?_⟩
      intro limit _ more number log
      exact ⟨log, by simp, rfl⟩
  | @cons population _ _ earlier _ _ _ goesOn bred _ ih =>
      obtain ⟨enough, breeds⟩ := bred.breed_eq
      obtain ⟨enough', later⟩ := ih
      refine ⟨max enough enough', ?_⟩
      intro limit high more number log
      obtain ⟨log', kept, next⟩ := breeds limit (by omega)
        (log.push (.ranked number (e.ranking population)))
      obtain ⟨log'', reported, rest⟩ := later limit (by omega) more (number + 1) log'
      refine ⟨log'', by simp [reported, kept, List.zipIdx_cons], ?_⟩
      rw [List.length_cons, ← Nat.add_assoc, evolve_more _ _ _ _ _ goesOn, result_bind, next]
      refine rest.trans ?_
      rw [Nat.add_assoc, Nat.add_comm 1]

/-- **Every evolution takes place** under every limit that is high enough. -/
theorem Evolves.evolve_eq (h : Evolves e more population s generations answer s') :
    ∃ enough, ∀ limit, enough ≤ limit → ∀ number log, ∃ log',
      rankings log'.toList = rankings log.toList ++ generations.zipIdx number ∧
        (e.evolve limit more number population).result log s =
          ((answer.mapError .failed, log'), s') := by
  cases h with
  | @finished earlier last _ lineage bound stop =>
      obtain ⟨enough, followed⟩ := lineage.evolve_eq
      refine ⟨enough, ?_⟩
      intro limit high number log
      obtain ⟨log', reported, same⟩ := followed limit high (more - earlier.length) number log
      rw [Nat.sub_add_cancel bound] at same
      have stops : more - earlier.length = 0 ∨ e.stopsAt (e.ranking last) = true :=
        stop.imp_left fun all => by omega
      refine ⟨_, ?_, same.trans (evolve_stop limit _ log' s' stops)⟩
      simp [reported, List.zipIdx_append]
  | @failed earlier last s₁ _ error lineage bound goesOn failure =>
      obtain ⟨enough, followed⟩ := lineage.evolve_eq
      obtain ⟨enough', breaksOff⟩ := failure.breed_eq
      refine ⟨max enough enough', ?_⟩
      intro limit high number log
      obtain ⟨log', reported, same⟩ := followed limit (by omega) (more - earlier.length - 1 + 1)
        number log
      rw [show more - earlier.length - 1 + 1 + earlier.length = more by omega,
        evolve_more _ _ _ _ _ goesOn] at same
      obtain ⟨log'', kept, broken⟩ := breaksOff limit (by omega)
        (log'.push (.ranked (number + earlier.length) (e.ranking last)))
      refine ⟨log'', by simp [kept, reported, List.zipIdx_append], ?_⟩
      rw [same, result_bind, broken]
      rfl

/-! ### The account of a lineage -/

/-- These candidates are the given trees, each with its fitness, and the best come first. -/
structure Ranks (e : Engine σ V) (trees : List Tree) (ranked : List Candidate) : Prop where
  eq_ranking : ranked = e.ranking trees
  perm : ranked.Perm (trees.map fun tree =>
    { tree, fitness := e.objective.fitness e.grammar tree })
  sorted : ranked.Pairwise fun a b => (compare a b).isLE = true

/-- How generations come from a population: the first ranks the population, and every other ranks
what rounds with candidates of the one before have contributed, in order and up to the size of a
population. There is a round only as long as there are too few trees. -/
structure Account (e : Engine σ V) (population : List Tree) (generations : List (List Candidate)) :
    Prop where
  first : ∃ ranked, generations[0]? = some ranked ∧ e.Ranks population ranked
  later : ∀ k ranked ranked', generations[k]? = some ranked → generations[k + 1]? = some ranked' →
    ∃ s s' outputs, Rounds e ranked [] s outputs s' ∧
      (∀ output ∈ outputs, output = [] ∨ e.Applied ranked (.ok output)) ∧
      (∀ k < outputs.length, (outputs.take k).flatten.length < e.settings.populationSize) ∧
      e.settings.populationSize ≤ outputs.flatten.length ∧
      e.Ranks (outputs.flatten.take e.settings.populationSize) ranked'

omit [RandomSource σ] in
theorem ranks_ranking (e : Engine σ V) (trees : List Tree) : e.Ranks trees (e.ranking trees) where
  eq_ranking := rfl
  perm := rank_perm _ _
  sorted := rank_sorted _ _

theorem Lineage.account {earlier : List (List Candidate)} {last : List Tree}
    (h : Lineage e population s earlier last s') :
    e.Account population (earlier ++ [e.ranking last]) := by
  induction h with
  | nil => exact ⟨⟨_, rfl, ranks_ranking e _⟩, by simp⟩
  | cons _ bred _ ih =>
      refine ⟨⟨_, rfl, ranks_ranking e _⟩, ?_⟩
      intro k ranked ranked' here there
      rw [List.cons_append] at here there
      cases k with
      | zero =>
          obtain rfl := Option.some.inj here
          rw [List.getElem?_cons_succ] at there
          obtain ⟨_, there', ranks⟩ := ih.first
          obtain rfl := Option.some.inj (there'.symm.trans there)
          cases bred with
          | full rounds enough =>
              exact ⟨_, _, _, rounds, rounds.applied, rounds.partial_lt, enough, ranks⟩
      | succ k => exact ih.later k ranked ranked' here there

theorem History.account (h : History e s population generations answer) :
    e.Account population generations := by
  cases h with
  | intro _ _ evolves =>
      cases evolves with
      | finished lineage _ _ => exact lineage.account
      | failed lineage _ _ _ => exact lineage.account

/-! ### Runs -/

omit [RandomSource σ] in
/-- A run has no generation when there is no initial population or only one of less than two
trees. -/
inductive Refused (e : Engine σ V) (s : σ) : Error → Prop where
  | genesis {error : Error} :
      (e.genesis 0 e.settings.populationSize none).answer s = .error error → Refused e s error
  | tooSmall {population : List Tree} :
      (e.genesis 0 e.settings.populationSize none).answer s = .ok population →
      population.length < 2 →
      Refused e s (.config (.initialPopulationTooSmall population.length))

theorem course_eq (initial : (e.genesis 0 e.settings.populationSize none).answer s = .ok population)
    (two : 2 ≤ population.length) (limit : Nat) (log : Array Event) :
    (e.course limit).result log s =
      (e.evolve limit e.settings.generations 0 population).result log
        ((e.genesis 0 e.settings.populationSize none).rest s) := by
  rw [course, result_bind, result_sample, initial]
  dsimp only
  rw [if_neg (Nat.not_lt_of_le two)]

theorem Refused.course_eq {error : Error} (h : e.Refused s error) (limit : Nat)
    (log : Array Event) :
    ∃ s', (e.course limit).result log s = ((.error (.failed error), log), s') := by
  rw [course, result_bind, result_sample]
  cases h with
  | genesis failed =>
      rw [failed]
      exact ⟨_, rfl⟩
  | tooSmall initial few =>
      rw [initial]
      dsimp only
      rw [if_pos few]
      exact ⟨_, rfl⟩

/-- **What a run comes to.** Unless it is cut short, it is refused, or it has a history. -/
theorem run_cases (e : Engine σ V) (limit : Nat) (s : σ) :
    let run := ((e.run limit).run s).run.1
    run.ending = .unfinished ∨
    (∃ error, e.Refused s error ∧ run = ⟨[], .failed error⟩) ∨
    ∃ population generations answer, History e s population generations answer ∧
      run.ending = endingOf (answer.mapError .failed) ∧
      rankings run.events = generations.zipIdx := by
  dsimp only
  rw [run_eq_result]
  rcases initial : (e.genesis 0 e.settings.populationSize none).answer s with error | population
  · right; left
    have refused : e.Refused s error := .genesis initial
    obtain ⟨s', result⟩ := refused.course_eq limit #[]
    exact ⟨error, refused, by rw [result]; rfl⟩
  · rcases Nat.lt_or_ge population.length 2 with few | two
    · right; left
      have refused : e.Refused s _ := .tooSmall initial few
      obtain ⟨s', result⟩ := refused.course_eq limit #[]
      exact ⟨_, refused, by rw [result]; rfl⟩
    · rw [course_eq initial two]
      have room : 0 < e.settings.populationSize → 0 < population.length := by omega
      rcases evolve_cases limit e.settings.generations 0 population #[] _ room with
        ⟨log', s', short⟩ | ⟨generations, answer, s', log', evolves, reported, ended⟩
      · left
        rw [short]
        rfl
      · right; right
        rw [ended]
        exact ⟨population, generations, answer, .intro initial two evolves, rfl, by
          simpa [rankings] using reported⟩

/-- A history is that of every run that is not cut short, and there are such runs. -/
theorem History.run_eq (h : History e s population generations answer) :
    (∃ limit, ((e.run limit).run s).run.1.ending ≠ .unfinished) ∧
    ∀ limit, ((e.run limit).run s).run.1.ending ≠ .unfinished →
      ((e.run limit).run s).run.1.ending = endingOf (answer.mapError .failed) ∧
      rankings ((e.run limit).run s).run.1.events = generations.zipIdx := by
  cases h with
  | intro initial two evolves =>
      obtain ⟨enough, followed⟩ := evolves.evolve_eq
      have told : ∀ limit, enough ≤ limit →
          ((e.run limit).run s).run.1.ending = endingOf (answer.mapError .failed) ∧
          rankings ((e.run limit).run s).run.1.events = generations.zipIdx := by
        intro limit high
        obtain ⟨log', reported, ended⟩ := followed limit high 0 #[]
        rw [run_eq_result, course_eq initial two, ended]
        exact ⟨rfl, by simpa [rankings] using reported⟩
      constructor
      · refine ⟨enough, ?_⟩
        rw [(told enough (Nat.le_refl enough)).1]
        cases answer <;> exact nofun
      · -- What is not cut short here is the same under a limit at which the history is told.
        intro limit ended
        have same := run_eq_of_le (Nat.le_max_left limit enough) s ended
        rw [← same]
        exact told _ (Nat.le_max_right limit enough)

/-- The answer is the last generation, and a run that stops before its time has found an optimum. -/
theorem History.finished_cases {last : List Candidate}
    (h : History e s population generations (.ok last)) :
    generations.getLast? = some last ∧ generations.length ≤ e.settings.generations + 1 ∧
      (generations.length ≤ e.settings.generations → e.stopsAt last = true) := by
  cases h with
  | intro _ _ evolves =>
      cases evolves with
      | finished _ bound stop =>
          simp only [List.getLast?_concat, List.length_append, List.length_singleton]
          refine ⟨trivial, by omega, ?_⟩
          intro early
          exact stop.resolve_left (by omega)

/-- What breaks off a history is the error of an operator, from candidates of the last
generation. -/
theorem History.applied {error : Error} (h : History e s population generations (.error error)) :
    ∃ ranked, generations.getLast? = some ranked ∧ e.Applied ranked (.error error) := by
  cases h with
  | intro _ _ evolves =>
      cases evolves with
      | failed _ _ _ breaksOff => exact ⟨_, List.getLast?_concat, breaksOff.applied⟩

omit [RandomSource σ] in
theorem stopsAt_iff (ranked : List Candidate) : e.stopsAt ranked = true ↔
    e.settings.terminateOnOptimum = true ∧
      ∃ best, ranked.head? = some best ∧ best.fitness.isZero = true := by
  simp [stopsAt, isOptimal, Option.any_eq_true]

/-- **The history of every run**, with whatever initial populations, operators and objective. A run
that finishes has reported its generations in order, at most one more than it may breed, and answers
the last; it has bred less often only when it was to stop at an optimum, and the last is one. Every
history is told in full by every run that the limit does not cut short, and there are such runs;
when it breaks off, they fail with the very error that an operator returned for two candidates of
the last generation. -/
theorem run_history (e : Engine σ V) (s : σ) :
    let run limit := ((e.run limit).run s).run.1
    (∀ limit last, (run limit).ending = .finished last →
      ∃ population generations, History e s population generations (.ok last) ∧
        e.Account population generations ∧
        rankings (run limit).events = generations.zipIdx ∧ generations.getLast? = some last ∧
        generations.length ≤ e.settings.generations + 1 ∧
        (generations.length ≤ e.settings.generations → e.settings.terminateOnOptimum = true ∧
          ∃ best, last.head? = some best ∧ best.fitness.isZero = true)) ∧
    ∀ population generations answer, History e s population generations answer →
      e.Account population generations ∧
      (∃ limit, (run limit).ending ≠ .unfinished) ∧
      ∀ limit, (run limit).ending ≠ .unfinished →
        rankings (run limit).events = generations.zipIdx ∧
        (∀ last, answer = .ok last → (run limit).ending = .finished last) ∧
        ∀ error, answer = .error error → (run limit).ending = .failed error ∧
          ∃ ranked, generations.getLast? = some ranked ∧ e.Applied ranked (.error error) := by
  dsimp only
  constructor
  · intro limit last finished
    rcases run_cases e limit s with unfinished | ⟨error, -, refused⟩ |
      ⟨population, generations, answer, history, ended, reported⟩
    · rw [finished] at unfinished
      cases unfinished
    · rw [refused] at finished
      cases finished
    · rw [finished] at ended
      cases answer with
      | error error => cases ended
      | ok last =>
          cases ended
          obtain ⟨answered, bound, early⟩ := history.finished_cases
          refine ⟨population, generations, history, history.account, reported, answered, bound, ?_⟩
          intro few
          exact (stopsAt_iff last).mp (early few)
  · intro population generations answer history
    obtain ⟨ended, told⟩ := history.run_eq
    refine ⟨history.account, ended, ?_⟩
    intro limit whole
    obtain ⟨ending, reported⟩ := told limit whole
    refine ⟨reported, ?_, ?_⟩
    · rintro last rfl
      exact ending
    · rintro error rfl
      exact ⟨ending, history.applied⟩

/-! ### Two histories -/

/-- An engine that starts with a tree of symbol 0, of fitness −1, and one of symbol 1, of fitness 0,
and has one operator. -/
def signed (operator : Operator WordStream) : Engine WordStream Nat where
  grammar := .pairs
  objective := ⟨fun _ t => if t.symbol t.root = 0 then (-1.0 : Float) else 0⟩
  settings := { maxDepth := 3, populationSize := 2, generations := 1, terminateOnOptimum := true }
  genesis := fun _ _ _ => return [.single 0, .single 1]
  wheel := ⟨[operator], [100]⟩

/-- The two trees, ranked. -/
def signs : List Candidate :=
  [{ tree := .single 0, fitness := (-1.0 : Float) }, { tree := .single 1, fitness := 0 }]

/-- A stream of words that pick the ranks 0 and 1 and the first operator. -/
def oneRound (drawn : Nat) : WordStream :=
  ⟨#[0, 0xffffffffffffffff, 0], #[], 0, drawn, ⟨0⟩⟩

variable (operator : Operator WordStream)

theorem ranking_signs : (signed operator).ranking [.single 0, .single 1] = signs := by
  have sorted : signs.Pairwise fun a b => (compare a b).isLE = true := by
    decide
  exact rank_eq_of_sorted sorted

/-- No candidate is at the optimum when the best is beyond it. -/
theorem stopsAt_signs : (signed operator).stopsAt signs = false := by
  change (true && isOptimal signs) = false
  decide

theorem drawn_signs : Drawn (signed operator) signs (oneRound 0)
    ⟨⟨0, by decide⟩, ⟨1, by decide⟩, by decide, some operator, oneRound 3⟩ := by
  let zero : Fin signs.length := ⟨0, by decide⟩
  let one : Fin signs.length := ⟨1, by decide⟩
  have picked : (((RankSelection.ofSize signs.length).pick (by decide)).run (oneRound 0)).run =
      (zero, oneRound 1) := by
    decide +kernel
  have pickedOther : (((RankSelection.ofSize signs.length).pick (by decide)).run
      (oneRound 1)).run = (one, oneRound 2) := by
    decide +kernel
  have selected : RandomSource.index32 100 (by decide) (oneRound 2) = (0, oneRound 3) :=
    WordStream.search_of_accept _ (by decide +kernel)
  exact .intro (by decide) (by decide) picked (.other pickedOther (by decide)) selected

/-- An operator that keeps its parents. -/
def keep : Operator WordStream := ⟨fun parents => return parents⟩

theorem history_keep : History (signed keep) (oneRound 0) [.single 0, .single 1] [signs, signs]
    (.ok signs) := by
  have rounds : Rounds (signed keep) signs [] (oneRound 0) [[.single 0, .single 1]] _ :=
    .cons (by decide) (drawn_signs keep) rfl .nil
  exact .of_breeds rfl rfl (by decide) rfl (ranking_signs keep) (stopsAt_signs keep)
    (.full rounds (by decide)) (ranking_signs keep)

/-- **Two runs from one population**: one keeps it for another generation, the other fails with what
its operator returns. -/
theorem run_history_signs :
    let fail : Operator WordStream := ⟨fun _ => throw (.config .emptyPopulation)⟩
    (∃ limit, let run := (((signed keep).run limit).run (oneRound 0)).run.1
      rankings run.events = [(signs, 0), (signs, 1)] ∧ run.ending = .finished signs ∧
      ∃ population generations,
        History (signed keep) (oneRound 0) population generations (.ok signs) ∧
        (signed keep).Account population generations ∧
        rankings run.events = generations.zipIdx) ∧
    ∃ limit, let run := (((signed fail).run limit).run (oneRound 0)).run.1
      rankings run.events = [(signs, 0)] ∧ run.ending = .failed (.config .emptyPopulation) ∧
      (signed fail).Applied signs (.error (.config .emptyPopulation)) := by
  intro fail
  constructor
  · obtain ⟨finished, told⟩ := run_history (signed keep) (oneRound 0)
    obtain ⟨-, ⟨limit, whole⟩, told⟩ := told _ _ _ history_keep
    obtain ⟨reported, answered, -⟩ := told limit whole
    have ended := answered signs rfl
    obtain ⟨population, generations, history, account, reported', -⟩ := finished limit signs ended
    exact ⟨limit, reported, ended, population, generations, history, account, reported'⟩
  · have failure : Breeds (signed fail) signs [] (oneRound 0)
        (.error (.config .emptyPopulation)) _ :=
      .failed .nil (by decide) (drawn_signs fail) rfl
    have history : History (signed fail) (oneRound 0) [.single 0, .single 1] [signs]
        (.error (.config .emptyPopulation)) :=
      .of_failure rfl rfl (by decide) (by decide) (ranking_signs fail) (stopsAt_signs fail) failure
    obtain ⟨-, told⟩ := run_history (signed fail) (oneRound 0)
    obtain ⟨-, ⟨limit, whole⟩, told⟩ := told _ _ _ history
    obtain ⟨reported, -, failed⟩ := told limit whole
    obtain ⟨ended, ranked, last, applied⟩ := failed _ rfl
    cases last
    exact ⟨limit, reported, ended, applied⟩

end Engine

end GrammarEvolution
