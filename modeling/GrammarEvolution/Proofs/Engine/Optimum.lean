import GrammarEvolution.Proofs.Engine.History

/-!
When a run stops at an optimum.

A run that may stop early looks at the best candidate of each generation, and stops when its fitness
is 0. A negative fitness ranks before that. So a generation with a candidate of fitness 0 is the
last of a run when no candidate ranks before −0; when one does, the run goes on.

* `isOptimal_iff`: the generations whose best candidate has fitness 0.
* `evolve_observes`: which generations an evolution reports, also when it is cut short.
* `run_stops`: what follows upon a generation with a candidate of fitness 0.
* `run_passes_optimum`: a run that goes on from such a generation.
-/

namespace GrammarEvolution

open Course

namespace Engine

/-- **The best of a ranking has fitness 0** when some candidate has and none ranks before −0. -/
theorem isOptimal_iff {ranked : List Candidate}
    (sorted : ranked.Pairwise fun a b => (compare a b).isLE = true) :
    isOptimal ranked = true ↔ (∃ c ∈ ranked, c.fitness.isZero = true) ∧
      ∀ c ∈ ranked, -0 ≤ c.fitness := by
  cases ranked with
  | nil => simp [isOptimal]
  | cons best others =>
      have least : ∀ c ∈ others, best.fitness ≤ c.fitness := by
        intro c hc
        have before := (List.pairwise_cons.mp sorted).1 c hc
        rw [Candidate.isLE_compare_iff] at before
        exact Fitness.le_of_lt_or_eq (before.imp_right And.left)
      simp only [isOptimal, List.head?_cons, Option.any_some, Fitness.isZero_iff]
      constructor
      · intro zero
        refine ⟨⟨best, List.mem_cons_self, zero⟩, ?_⟩
        intro c hc
        rcases List.mem_cons.mp hc with rfl | hc
        · exact zero.1
        · exact Fitness.le_trans zero.1 (least c hc)
      · rintro ⟨⟨c, hc, -, zero⟩, bound⟩
        refine ⟨bound best List.mem_cons_self, ?_⟩
        rcases List.mem_cons.mp hc with rfl | hc
        · exact zero
        · exact Fitness.le_trans (least c hc) zero

end Engine

/-! ### Courses that report no generation -/

namespace Course

variable {σ α β : Type}

/-- Whatever the course comes to, it reports no generation. -/
def Quiet (x : Course σ α) : Prop :=
  ∀ log s, rankings (x.result log s).1.2.toList = rankings log.toList

theorem quiet_pure (a : α) : Quiet (pure a : Course σ α) :=
  fun _ _ => rfl

theorem quiet_throw (halt : Halt) : Quiet (throw halt : Course σ α) :=
  fun _ _ => rfl

theorem quiet_lift (x : StateM σ α) : Quiet (liftM x : Course σ α) :=
  fun _ _ => rfl

theorem quiet_sample (x : Sampling σ α) : Quiet (sample x) := by
  intro log s
  rw [result_sample]
  cases x.answer s <;> rfl

theorem quiet_barren (rounds filled : Nat) :
    Quiet (report (.barren rounds filled) : Course σ Unit) := by
  intro log s
  change rankings (log.push (.barren rounds filled)).toList = _
  simp

theorem Quiet.bind {x : Course σ α} {f : α → Course σ β} (h : x.Quiet) (next : ∀ a, (f a).Quiet) :
    (x >>= f).Quiet := by
  intro log s
  have kept := h log s
  rw [result_bind]
  rcases result : x.result log s with ⟨⟨halt | a, log'⟩, s'⟩ <;> rw [result] at kept
  · exact kept
  · exact (next a log' s').trans kept

end Course

namespace Engine

variable {σ V : Type} [RandomSource σ] {e : Engine σ V}

theorem pickOther_quiet {n : Nat} (selection : RankSelection n) (h : 0 < n) (taken : Fin n)
    (limit : Nat) : (pickOther selection h taken limit : Course σ (Fin n)).Quiet := by
  induction limit with
  | zero => exact quiet_throw _
  | succ limit ih =>
      unfold pickOther
      refine (quiet_lift _).bind fun i => ?_
      split
      · exact ih
      · exact quiet_pure _

theorem breedingRound_quiet {ranked : List Candidate} (selection : RankSelection ranked.length)
    (limit : Nat) : (e.breedingRound limit ranked selection).Quiet := by
  unfold breedingRound roundBy
  split
  · refine (quiet_lift _).bind fun first => (pickOther_quiet _ _ _ _).bind fun second =>
      (quiet_sample _).bind fun draw => ?_
    split
    · exact quiet_sample _
    · exact quiet_pure _
  · exact quiet_throw _

theorem fill_quiet {ranked : List Candidate} (selection : RankSelection ranked.length)
    (limit rounds barren : Nat) (next : List Tree) :
    (e.fill limit ranked selection rounds barren next).Quiet := by
  induction rounds generalizing barren next with
  | zero =>
      unfold fill
      split
      · exact quiet_pure _
      · exact quiet_throw _
  | succ rounds ih =>
      unfold fill
      split
      · exact quiet_pure _
      · refine (breedingRound_quiet selection limit).bind fun offspring => ?_
        dsimp only
        split
        · split
          · exact (quiet_barren _ _).bind fun _ => ih _ _
          · exact ih _ _
        · exact ih _ _

/-! ### Reported generations -/

/-- The generations that an evolution with at most `more` breedings reports, and what it comes to:
it stops at the last of them, or the breeding from that one comes to nothing. -/
inductive Observes (e : Engine σ V) :
    Nat → List (List Candidate) → Except Halt (List Candidate) → Prop where
  | stopped {more : Nat} {population : List Tree} :
      more = 0 ∨ e.stopsAt (e.ranking population) = true →
      Observes e more [e.ranking population] (.ok (e.ranking population))
  | halted {more : Nat} {population : List Tree} {halt : Halt} :
      e.stopsAt (e.ranking population) = false →
      Observes e (more + 1) [e.ranking population] (.error halt)
  | bred {more : Nat} {population : List Tree} {generations : List (List Candidate)}
      {answer : Except Halt (List Candidate)} :
      e.stopsAt (e.ranking population) = false → Observes e more generations answer →
      Observes e (more + 1) (e.ranking population :: generations) answer

/-- What is reported of an evolution, be it cut short or not. -/
theorem evolve_observes (limit more number : Nat) (population : List Tree) (log : Array Event)
    (s : σ) :
    let result := (e.evolve limit more number population).result log s
    ∃ generations, Observes e more generations result.1.1 ∧
      rankings result.1.2.toList = rankings log.toList ++ generations.zipIdx number := by
  dsimp only
  induction more generalizing number population log s with
  | zero =>
      rw [evolve_stop limit number log s (.inl rfl)]
      exact ⟨_, .stopped (.inl rfl), by simp⟩
  | succ more ih =>
      rcases goesOn : e.stopsAt (e.ranking population) with _ | _
      · -- Whatever the breeding comes to, the generations of the log stay as they are.
        have quiet : (e.breed limit (e.ranking population)).Quiet := fill_quiet _ _ _ _ _
        have kept := quiet (log.push (.ranked number (e.ranking population))) s
        rw [evolve_more limit number log s more goesOn, result_bind]
        rcases breeding : (e.breed limit (e.ranking population)).result _ s with
          ⟨⟨halt | next, log'⟩, s'⟩ <;> rw [breeding] at kept
        · exact ⟨_, .halted goesOn, by simpa using kept⟩
        · obtain ⟨generations, observes, reported⟩ := ih (number + 1) next log' s'
          refine ⟨_, .bred goesOn observes, ?_⟩
          simp only [Array.toList_push, rankings_append, rankings_ranked] at kept
          simp [reported, kept, List.zipIdx_cons]
      · rw [evolve_stop limit number log s (.inr goesOn)]
        exact ⟨_, .stopped (.inr goesOn), by simp⟩

omit [RandomSource σ] in
theorem Observes.ne_nil {more : Nat} {generations : List (List Candidate)}
    {answer : Except Halt (List Candidate)} (h : Observes e more generations answer) :
    generations ≠ [] := by
  cases h <;> exact List.cons_ne_nil _ _

omit [RandomSource σ] in
/-- A generation at which a run may stop is the last, and any other is not, unless there is no
breeding left or it comes to nothing. -/
theorem Observes.split {more : Nat} {generations before after : List (List Candidate)}
    {ranked : List Candidate} {answer : Except Halt (List Candidate)}
    (h : Observes e more generations answer) (here : generations = before ++ ranked :: after) :
    (∃ population, ranked = e.ranking population) ∧
    (e.stopsAt ranked = true → after = [] ∧ answer = .ok ranked) ∧
    (e.stopsAt ranked = false → before.length < more → ∀ last, answer = .ok last → after ≠ []) := by
  induction h generalizing before with
  | @stopped more population stop =>
      obtain ⟨rfl, rfl, rfl⟩ := List.split_of_singleton here
      refine ⟨⟨_, rfl⟩, fun _ => ⟨rfl, rfl⟩, ?_⟩
      intro goesOn early
      rw [goesOn] at stop
      simp at stop early
      omega
  | @halted more population halt goesOn =>
      obtain ⟨rfl, rfl, rfl⟩ := List.split_of_singleton here
      refine ⟨⟨_, rfl⟩, ?_, nofun⟩
      rw [goesOn]
      exact nofun
  | @bred more population generations answer goesOn observes ih =>
      cases before with
      | nil =>
          obtain ⟨rfl, rfl⟩ := List.cons.inj here
          refine ⟨⟨_, rfl⟩, ?_, fun _ _ _ _ => observes.ne_nil⟩
          rw [goesOn]
          exact nofun
      | cons first before =>
          obtain ⟨ranking, stop, goOn⟩ := ih (List.cons.inj here).2
          refine ⟨ranking, stop, ?_⟩
          intro goesOn early
          exact goOn goesOn (Nat.lt_of_succ_lt_succ early)

theorem finished_of_endingOf {answer : Except Halt (List Candidate)} {last : List Candidate}
    (h : endingOf answer = .finished last) : answer = .ok last := by
  rcases answer with (_ | _) | _ <;> cases h
  rfl

/-- What is reported of a run, be it cut short or not. -/
theorem run_observes (e : Engine σ V) (limit : Nat) (s : σ) :
    let run := ((e.run limit).run s).run.1
    rankings run.events = [] ∨ ∃ generations answer,
      Observes e e.settings.generations generations answer ∧
        rankings run.events = generations.zipIdx ∧ run.ending = endingOf answer := by
  dsimp only
  rw [run_eq_result]
  rcases initial : (e.genesis 0 e.settings.populationSize none).answer s with error | population
  · obtain ⟨s', result⟩ := Refused.course_eq (e := e) (.genesis initial) limit #[]
    rw [result]
    exact .inl rfl
  · rcases Nat.lt_or_ge population.length 2 with few | two
    · obtain ⟨s', result⟩ := Refused.course_eq (e := e) (.tooSmall initial few) limit #[]
      rw [result]
      exact .inl rfl
    · right
      rw [course_eq initial two]
      obtain ⟨generations, observes, reported⟩ := evolve_observes limit e.settings.generations 0
        population #[] ((e.genesis 0 e.settings.populationSize none).rest s)
      exact ⟨generations, _, observes, by simpa [rankings] using reported, rfl⟩

/-- **What follows upon a generation with a candidate of fitness 0**, in a run that may stop there.
When no candidate ranks before −0, it is the last generation, and the run answers it. When one does,
the run goes on: it comes to an end with a later generation only, unless there is no breeding
left. -/
theorem run_stops (e : Engine σ V) (may : e.settings.terminateOnOptimum = true) (limit : Nat)
    (s : σ) :
    let run := ((e.run limit).run s).run.1
    ∀ before number ranked after, rankings run.events = before ++ (ranked, number) :: after →
      (∃ c ∈ ranked, c.fitness.isZero = true) →
      ((∀ c ∈ ranked, -0 ≤ c.fitness) →
        after = [] ∧ run.ending = .finished ranked) ∧
      ((∃ c ∈ ranked, c.fitness < -0) → number < e.settings.generations →
        ∀ last, run.ending = .finished last → after ≠ []) := by
  intro run before number ranked after here zero
  rcases run_observes e limit s with none | ⟨generations, answer, observes, reported, ended⟩
  · rw [here] at none
    exact absurd none (by simp)
  rw [reported] at here
  obtain ⟨same, numbered⟩ := List.split_of_zipIdx here
  obtain ⟨⟨population, rfl⟩, stop, goOn⟩ := observes.split same
  have optimal : e.stopsAt (e.ranking population) = true ↔
      ∀ c ∈ e.ranking population, -0 ≤ c.fitness := by
    rw [stopsAt, may, Bool.true_and, isOptimal_iff (ranks_ranking e population).sorted]
    exact and_iff_right zero
  constructor
  · intro least
    obtain ⟨rest, rfl⟩ := stop (optimal.mpr least)
    exact ⟨List.map_eq_nil_iff.mp rest, ended⟩
  · rintro ⟨c, hc, negative⟩ early last finished rfl
    have goesOn : e.stopsAt (e.ranking population) = false := by
      rw [Bool.eq_false_iff, Ne, optimal]
      exact fun least => absurd (least c hc) (Int.not_le.mpr negative)
    obtain rfl := finished_of_endingOf (ended.symm.trans finished)
    exact goOn goesOn (by simpa [numbered] using early) last rfl rfl

/-! ### Two runs -/

/-- Two trees of fitness 0: the run answers them, though there is a breeding left. -/
theorem run_stops_perfect :
    let e := { signed keep with genesis := fun _ _ _ => return [.single 1, .single 1] }
    let run := ((e.run 1).run ⟨#[], #[], 0, 0, ⟨0⟩⟩).run.1
    let perfect : Candidate := { tree := .single 1, fitness := 0 }
    rankings run.events = [([perfect, perfect], 0)] ∧
      run.ending = .finished [perfect, perfect] := by
  intro e run perfect
  have sorted : [perfect, perfect].Pairwise fun a b => (compare a b).isLE = true := by
    decide +kernel
  have ranked : e.ranking [.single 1, .single 1] = [perfect, perfect] := rank_eq_of_sorted sorted
  have stops : e.stopsAt (e.ranking [.single 1, .single 1]) = true := by
    rw [ranked]
    decide
  have reported : rankings run.events = [] ++ ([perfect, perfect], 0) :: [] := by
    change rankings ((e.run 1).run _).run.1.events = _
    rw [run_eq_result, course_eq rfl (by decide), evolve_stop _ _ _ _ (.inr stops), ranked]
    rfl
  have zero : ∃ c ∈ [perfect, perfect], c.fitness.isZero = true :=
    ⟨perfect, List.mem_cons_self, by decide⟩
  have ending := (run_stops e rfl 1 ⟨#[], #[], 0, 0, ⟨0⟩⟩ [] 0 _ [] reported zero).1 (by decide)
  exact ⟨reported, ending.2⟩

/-- **A run that goes on though a candidate has fitness 0**: another has −1. -/
theorem run_passes_optimum :
    ∃ (e : Engine WordStream Nat) (s : WordStream) (limit : Nat) (first second : List Candidate),
      let run := ((e.run limit).run s).run.1
      e.settings.terminateOnOptimum = true ∧
      rankings run.events = [(first, 0), (second, 1)] ∧
      (∃ c ∈ first, c.fitness.isZero = true) ∧
      run.ending = .finished second := by
  obtain ⟨⟨limit, whole⟩, told⟩ := history_keep.run_eq
  obtain ⟨ended, reported⟩ := told limit whole
  exact ⟨_, _, limit, signs, signs, rfl, reported,
    ⟨_, List.mem_cons_of_mem _ List.mem_cons_self, by decide⟩, ended⟩

end Engine

end GrammarEvolution
