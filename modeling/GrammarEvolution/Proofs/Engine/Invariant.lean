import GrammarEvolution.Proofs.Engine.History
import GrammarEvolution.Proofs.Operator.Crossover
import GrammarEvolution.Proofs.Operator.Mutation

/-!
The invariant of a run.

Populations consist of derivations from the start symbol within the maximal depth: growth makes such
trees and the standard operators make such trees of such trees. So every ranked generation is of
this kind, whatever the objective says and whatever is drawn, and the one thing that can go wrong is
that the start symbol needs more depth than there is.

* `Operator.Preserves`: an operator never fails on admitted parents, and its offspring are admitted.
* `fill_triple`, `evolve_triple`: what a breeding and a whole evolution preserve.
* `run_outcome`: every generation of every run, and the only error there is.
-/

namespace GrammarEvolution

open Course Sampling

variable {σ V : Type} [RandomSource σ] {g : Grammar V} {d : DepthTable} {start : SymbolId}
  {depth : Nat}

/-! ### Operators -/

/-- Two admitted parents have admitted offspring only, and no failure. -/
def Operator.Preserves (operator : Operator σ) (g : Grammar V) (start : SymbolId) (depth : Nat) :
    Prop :=
  ∀ t u, g.Admits start depth t → g.Admits start depth u →
    (operator.evolve [t, u]).Always fun offspring => ∀ o ∈ offspring, g.Admits start depth o

omit [RandomSource σ] in
theorem reproduction_preserves :
    (Operator.reproduction : Operator σ).Preserves g start depth := by
  intro t u ht _
  exact always_pure (List.forall_mem_singleton.mpr ht)

omit [RandomSource σ] in
/-- Offspring of an admitted parent stay within the depth, as the parent does. -/
theorem admits_of_offspring {t o : Tree} {n : Nat} {p : List Nat} {r : Rose SymbolId}
    (ht : g.Admits start depth t) (h : g.Offspring depth t n p r o) : g.Admits start depth o where
  wellFormed := h.wellFormed
  root := h.root.trans ht.root
  valid := h.valid
  height := by
    have bound := h.height
    rwa [Nat.max_eq_right ht.height] at bound

theorem crossover_preserves :
    (Operator.crossover g depth : Operator σ).Preserves g start depth := by
  intro t u ht hu
  refine (Crossover.cross_always g depth ht.wellFormed hu.wellFormed).mono fun offspring made => ?_
  rcases made with ⟨a, b, p, q, exchangeable, ha, hb, rfl⟩ | ⟨rfl, -⟩
  · obtain ⟨first, second⟩ :=
      exchangeable.offspring ht.wellFormed hu.wellFormed ht.valid hu.valid ha hb
    intro o ho
    rcases List.mem_pair.mp ho with rfl | rfl
    · exact admits_of_offspring ht first
    · exact admits_of_offspring hu second
  · exact nofun

theorem mutation_preserves (closed : g.Closed) (table : DepthTable.ofGrammar g = .ok d) :
    (Operator.mutation g d depth : Operator σ).Preserves g start depth := by
  intro t _ ht _
  refine (Mutation.mutate_always closed table ht.wellFormed depth).mono fun offspring made => ?_
  rcases made with ⟨n, p, r, regrown, rfl⟩ | ⟨rfl, -⟩
  · have made := regrown.offspring ht.wellFormed ht.valid
    exact List.forall_mem_singleton.mpr (admits_of_offspring ht made)
  · exact nofun

/-! ### Breeding -/

/-- Every ranked generation of a log consists of admitted trees. -/
def Admitted (g : Grammar V) (start : SymbolId) (depth : Nat) (log : Array Event) : Prop :=
  ∀ number ranked, Event.ranked number ranked ∈ log → ∀ c ∈ ranked, g.Admits start depth c.tree

/-- Nothing has gone wrong: the limit was used up, and the log is as it should be. -/
def Unfinished (g : Grammar V) (start : SymbolId) (depth : Nat) (halt : Halt)
    (log : Array Event) : Prop :=
  (∀ error, halt ≠ .failed error) ∧ Admitted g start depth log

omit [RandomSource σ] in
theorem triple_unfinished {α : Type} {post : α → Array Event → Prop} :
    Triple (Admitted g start depth) (throw .unfinished : Course σ α) post
      (Unfinished g start depth) :=
  triple_throw fun _ admitted => ⟨nofun, admitted⟩

namespace Engine

variable {e : Engine σ V} {ranked : List Candidate} {selection : RankSelection ranked.length}

theorem pickOther_triple {n : Nat} (selection : RankSelection n) (h : 0 < n) (taken : Fin n)
    (limit : Nat) :
    Triple (Admitted g start depth) (pickOther selection h taken limit : Course σ (Fin n))
      (fun _ => Admitted g start depth) (Unfinished g start depth) := by
  induction limit with
  | zero => exact triple_unfinished
  | succ limit ih =>
      unfold pickOther
      refine (triple_pick fun _ _ admitted => admitted).bind fun i => ?_
      split
      · exact ih
      · exact triple_pure fun _ admitted => admitted

/-- A round between admitted candidates has admitted offspring only. -/
theorem breedingRound_triple (operators : ∀ o ∈ e.wheel.operators, o.Preserves g start depth)
    (inhabited : 0 < ranked.length) (parents : ∀ c ∈ ranked, g.Admits start depth c.tree)
    (limit : Nat) :
    Triple (Admitted g start depth) (e.breedingRound limit ranked selection)
      (fun offspring log => (∀ o ∈ offspring, g.Admits start depth o) ∧
        Admitted g start depth log)
      (Unfinished g start depth) := by
  unfold breedingRound roundBy
  rw [dif_pos inhabited]
  refine (triple_pick fun _ _ admitted => admitted).bind fun first => ?_
  refine (pickOther_triple selection inhabited first limit).bind fun second => ?_
  refine (triple_sample (always_index32 100 (by decide)) fun _ _ _ admitted => admitted).bind
    fun draw => ?_
  split
  · rename_i operator selected
    have preserved := operators operator (Wheel.mem_of_operatorAt selected) _ _
      (parents _ (ranked.get_mem first)) (parents _ (ranked.get_mem second))
    exact triple_sample preserved fun _ _ offspring admitted => ⟨offspring, admitted⟩
  · exact triple_pure fun _ admitted => ⟨nofun, admitted⟩

omit [RandomSource σ] in
/-- A report that is no ranking leaves the rankings as they were. -/
theorem triple_report_barren (rounds filled : Nat) :
    Triple (Admitted g start depth) (report (.barren rounds filled) : Course σ Unit)
      (fun _ => Admitted g start depth) (Unfinished g start depth) := by
  refine triple_report fun log admitted number ranked mem => ?_
  rcases Array.mem_push.mp mem with old | new
  · exact admitted number ranked old
  · cases new

omit [RandomSource σ] in
/-- A full population is cut off to its exact size. -/
theorem full_triple {next : List Tree} {size : Nat} (full : size ≤ next.length)
    (kept : ∀ t ∈ next, g.Admits start depth t) :
    Triple (Admitted g start depth) (pure (next.take size) : Course σ (List Tree))
      (fun trees log => g.Populates start depth size trees ∧ Admitted g start depth log)
      (Unfinished g start depth) := by
  have cut : g.Populates start depth size (next.take size) := by
    constructor
    · rw [List.length_take, Nat.min_eq_left full]
    · intro t ht
      exact kept t (List.mem_of_mem_take ht)
  exact triple_pure fun _ admitted => ⟨cut, admitted⟩

/-- Admitted offspring fill up an admitted population. -/
theorem fill_triple (operators : ∀ o ∈ e.wheel.operators, o.Preserves g start depth)
    (inhabited : 0 < ranked.length) (parents : ∀ c ∈ ranked, g.Admits start depth c.tree)
    (limit rounds barren : Nat) (next : List Tree) (kept : ∀ t ∈ next, g.Admits start depth t) :
    Triple (Admitted g start depth) (e.fill limit ranked selection rounds barren next)
      (fun trees log => g.Populates start depth e.settings.populationSize trees ∧
        Admitted g start depth log)
      (Unfinished g start depth) := by
  induction rounds generalizing barren next with
  | zero =>
      unfold fill
      split
      · exact full_triple ‹_› kept
      · exact triple_unfinished
  | succ rounds ih =>
      unfold fill
      split
      · exact full_triple ‹_› kept
      · refine (breedingRound_triple operators inhabited parents limit).bind fun offspring =>
          triple_assume fun made => ?_
        dsimp only
        split
        · split
          · exact (triple_report_barren _ _).bind fun _ => ih _ _ kept
          · exact ih _ _ kept
        · refine ih 0 _ fun t ht => ?_
          rcases List.mem_append.mp ht with old | new
          · exact kept t old
          · exact made t new

/-! ### Generations -/

omit [RandomSource σ] in
/-- A ranked population is reported as it should be. -/
theorem triple_report_ranked (number : Nat) (admits : ∀ c ∈ ranked, g.Admits start depth c.tree) :
    Triple (Admitted g start depth) (report (.ranked number ranked) : Course σ Unit)
      (fun _ => Admitted g start depth) (Unfinished g start depth) := by
  refine triple_report fun log admitted number' ranked' mem => ?_
  rcases Array.mem_push.mp mem with old | new
  · exact admitted number' ranked' old
  · obtain ⟨-, rfl⟩ := Event.ranked.inj new
    exact admits

omit [RandomSource σ] in
/-- The candidates of a population are its trees. -/
theorem admits_of_mem_rank (fitness : Tree → Fitness) {size : Nat} {population : List Tree}
    (populates : g.Populates start depth size population) :
    ∀ c ∈ rank fitness population, g.Admits start depth c.tree :=
  fun _ hc => populates.admits _ (tree_mem_of_mem_rank hc)

/-- **Evolution preserves admission.** A population of admitted trees is ranked, and so are all
that are bred from it. -/
theorem evolve_triple (operators : ∀ o ∈ e.wheel.operators, o.Preserves g start depth)
    (sizePos : 0 < e.settings.populationSize) (limit more number : Nat) {population : List Tree}
    (populates : g.Populates start depth e.settings.populationSize population) :
    Triple (Admitted g start depth) (e.evolve limit more number population)
      (fun _ => Admitted g start depth) (Unfinished g start depth) := by
  have reported := triple_report_ranked (σ := σ) number
    (admits_of_mem_rank (e.objective.fitness e.grammar) populates)
  induction more generalizing number population with
  | zero =>
      unfold evolve
      refine reported.bind fun _ => ?_
      split
      · exact triple_pure fun _ admitted => admitted
      · exact triple_pure fun _ admitted => admitted
  | succ more ih =>
      unfold evolve
      refine reported.bind fun _ => ?_
      split
      · exact triple_pure fun _ admitted => admitted
      · have inhabited : 0 < (rank (e.objective.fitness e.grammar) population).length := by
          rw [length_rank, populates.length]
          exact sizePos
        refine (fill_triple operators inhabited (admits_of_mem_rank _ populates) limit limit 0
          [] (List.forall_mem_nil _)).bind fun next => triple_assume fun bred => ?_
        exact ih (number + 1) bred (triple_report_ranked _ (admits_of_mem_rank _ bred))

/-! ### Standard engines -/

/-- The engine that is set up for a grammar, and the same with other shares for its operators. -/
inductive Standard (g : Grammar V) (objective : Objective V) (settings : Settings) :
    Engine σ V → Prop where
  | ofGrammar {e : Engine σ V} (setup : Engine.ofGrammar g objective settings = .ok e) :
      Standard g objective settings e
  | withShares {e e' : Engine σ V} (standard : Standard g objective settings e)
      {reproduction crossover mutation : UInt32}
      (change : e.withShares reproduction crossover mutation = .ok e') :
      Standard g objective settings e'

/-- What stays the same when the shares are changed. -/
structure Setup (g : Grammar V) (settings : Settings) (d : DepthTable) (e : Engine σ V) : Prop where
  grammar_eq : e.grammar = g
  settings_eq : e.settings = settings
  size : 2 ≤ settings.populationSize
  genesis : e.genesis = Initializer.generate ⟨g, d, settings.maxDepth⟩
  operators : e.wheel.operators =
    [.reproduction, .crossover g settings.maxDepth, .mutation g d settings.maxDepth]

/-- Standard operators are made for the table of the grammar. -/
theorem operators_of_standard {w : Wheel σ} {maxDepth : Nat}
    {reproduction crossover mutation : UInt32} (table : DepthTable.ofGrammar g = .ok d)
    (h : Wheel.standard g maxDepth reproduction crossover mutation = .ok w) :
    w.operators = [.reproduction, .crossover g maxDepth, .mutation g d maxDepth] := by
  obtain ⟨_, -, h⟩ := Except.bind_eq_ok_iff.mp h
  rw [table] at h
  change Wheel.ofShares [.reproduction, .crossover g maxDepth, .mutation g d maxDepth]
    [reproduction, crossover, mutation] = .ok w at h
  obtain ⟨_, -, made⟩ := Except.bind_eq_ok_iff.mp h
  cases made
  rfl

theorem Standard.setup {objective : Objective V} {settings : Settings}
    (h : Standard g objective settings e) :
    ∃ d, DepthTable.ofGrammar g = .ok d ∧ e.Setup g settings d := by
  induction h with
  | ofGrammar setup =>
      unfold Engine.ofGrammar at setup
      dsimp only at setup
      split at setup
      · cases setup
      · rename_i enough
        obtain ⟨i, grown, setup⟩ := Except.bind_eq_ok_iff.mp setup
        obtain ⟨w, wheel, made⟩ := Except.bind_eq_ok_iff.mp setup
        obtain ⟨d, table, rfl⟩ := Initializer.ofGrammar_eq_ok grown
        cases made
        exact ⟨d, table, rfl, rfl, Nat.le_of_not_lt enough, rfl, operators_of_standard table wheel⟩
  | withShares _ change ih =>
      obtain ⟨d, table, setup⟩ := ih
      obtain ⟨w, wheel, made⟩ := Except.bind_eq_ok_iff.mp change
      rw [setup.grammar_eq, setup.settings_eq] at wheel
      cases made
      exact ⟨d, table, setup.grammar_eq, setup.settings_eq, setup.size, setup.genesis,
        operators_of_standard table wheel⟩

/-! ### Runs -/

section Runs

variable {settings : Settings} (setup : e.Setup g settings d)

include setup

/-- Where the start symbol fits, a run goes on until its last generation or its limit. -/
theorem course_triple (closed : g.Closed) (table : DepthTable.ofGrammar g = .ok d)
    (fits : Growth.Fits g d g.start settings.maxDepth) (limit : Nat) :
    Triple (Admitted g g.start settings.maxDepth) (e.course limit)
      (fun _ => Admitted g g.start settings.maxDepth)
      (Unfinished g g.start settings.maxDepth) := by
  have enough : 2 ≤ e.settings.populationSize := setup.settings_eq ▸ setup.size
  have operators : ∀ o ∈ e.wheel.operators, o.Preserves g g.start settings.maxDepth := by
    rw [setup.operators]
    intro o ho
    simp only [List.mem_cons, List.not_mem_nil, or_false] at ho
    rcases ho with rfl | rfl | rfl
    · exact reproduction_preserves
    · exact crossover_preserves
    · exact mutation_preserves closed table
  have grown : (e.genesis 0 e.settings.populationSize none).Always
      (g.Populates g.start settings.maxDepth e.settings.populationSize) := by
    rw [setup.genesis]
    exact Initializer.generate_always (i := ⟨g, d, settings.maxDepth⟩) 0 _
      (DepthTable.sound_of_ofGrammar table) (closed.isNonTerminal _ closed.start) fits
  unfold course
  refine (triple_sample grown fun _ _ populates admitted =>
    (⟨populates, admitted⟩ : _ ∧ Admitted _ _ _ _)).bind fun population =>
      triple_assume fun populates => ?_
  rw [if_neg (by rw [populates.length]; omega)]
  exact evolve_triple operators (by omega) limit _ 0 populates

/-- Where it does not, the run ends before its first generation. -/
theorem course_refused (closed : g.Closed) (table : DepthTable.ofGrammar g = .ok d)
    {error : Error} (refused : Initializer.Refuses g d g.start settings.maxDepth error)
    (limit : Nat) (log : Array Event) (s : σ) :
    (e.course limit).outcome log s = (.error (.failed error), log) := by
  have failed : (e.genesis 0 e.settings.populationSize none).answer s = .error error := by
    rw [setup.genesis]
    exact Initializer.answer_generate_of_refuses (i := ⟨g, d, settings.maxDepth⟩) s closed table
      refused
  unfold course
  rw [outcome_bind, outcome_sample, failed]

end Runs

theorem run_eq (limit : Nat) (s : σ) :
    ((e.run limit).run s).run.1 =
      ⟨((e.course limit).outcome #[] s).2.toList, match ((e.course limit).outcome #[] s).1 with
        | .ok last => .finished last
        | .error (.failed error) => .failed error
        | .error .unfinished => .unfinished⟩ :=
  rfl

/-- **Every run of a standard engine.** All trees of all generations that it ranks are derivations
from the start symbol within the maximal depth. It fails when the start symbol needs more depth than
that, and for no other reason. -/
theorem run_outcome {objective : Objective V} {settings : Settings} (built : g.Built)
    (standard : Standard g objective settings e) (limit : Nat) (s : σ) :
    let run := ((e.run limit).run s).run.1
    (∀ number ranked, .ranked number ranked ∈ run.events → ∀ c ∈ ranked,
      g.check c.tree = .ok () ∧ c.tree.symbol c.tree.root = g.start ∧
        c.tree.height ≤ settings.maxDepth) ∧
    ∃ d required, DepthTable.ofGrammar g = .ok d ∧ d.symbolLength g g.start = some required ∧
      ∀ error, run.ending = .failed error ↔
        settings.maxDepth < required ∧
          error = .depthUnsatisfiable required settings.maxDepth := by
  intro run
  have closed := built.closed
  obtain ⟨d, table, setup⟩ := standard.setup
  obtain ⟨required, length⟩ := (DepthTable.exists_symbolLength_iff_declared closed table
    (closed.isNonTerminal _ closed.start)).mpr closed.start
  have made : run = _ := run_eq limit s
  by_cases short : settings.maxDepth < required
  · rw [course_refused setup closed table (.tooShallow closed.start length short)] at made
    rw [made]
    refine ⟨nofun, d, required, table, length, ?_⟩
    intro error
    rw [Ending.failed.injEq]
    constructor
    · intro same
      exact ⟨short, same.symm⟩
    · rintro ⟨-, rfl⟩
      rfl
  · have fits : Growth.Fits g d g.start settings.maxDepth := fun _ =>
      ⟨required, length, Nat.le_of_not_lt short⟩
    have done := course_triple setup closed table fits limit #[] s nofun
    rw [made]
    have admitted : Admitted g g.start settings.maxDepth ((e.course limit).outcome #[] s).2 := by
      rcases outcome : (e.course limit).outcome #[] s with ⟨_ | _, log⟩ <;> rw [outcome] at done
      · exact done.2
      · exact done
    refine ⟨?_, d, required, table, length, ?_⟩
    · intro number ranked mem c hc
      have tree := admitted number ranked (Array.mem_toList_iff.mp mem) c hc
      exact ⟨tree.valid, tree.root, tree.height⟩
    · intro error
      refine ⟨?_, fun refused => absurd refused.1 short⟩
      intro failed
      rcases outcome : (e.course limit).outcome #[] s with ⟨halt | _, log⟩ <;>
        rw [outcome] at done failed
      · cases halt with
        | failed error' => exact absurd rfl (done.1 error')
        | unfinished => cases failed
      · cases failed

/-- Words for a pair of ones, for a pair of a one and such a pair, and for a round that crosses the
two. -/
def crossingWords (drawn : Nat) : WordStream where
  once := #[0, 0x8000000000000000, 0x8000000000000000,
    0, 0x8000000000000000, 0, 0, 0,
    0xffffffffffffffff, 0, 0x1000000000000000, 0x4000000000000000, 0]
  round := #[]
  rounds := 0
  drawn := drawn
  generator := ⟨0⟩

/-- Populations of two, one of them bred. In the first, one pair has a pair for its second part; in
the second, one pair has it for its first. -/
theorem run_pairs :
    let d : DepthTable := ⟨#[some 2, some 1]⟩
    let settings : Settings := { maxDepth := 3, populationSize := 2, generations := 1 }
    let e : Engine WordStream Nat := {
      grammar := .pairs
      objective := ⟨fun _ _ => 0⟩
      settings
      genesis := Initializer.generate ⟨.pairs, d, 3⟩
      wheel := ⟨[.reproduction, .crossover .pairs 3, .mutation .pairs d 3], [5, 95, 97]⟩ }
    let one : Rose SymbolId := .node 0 [.node 1 []]
    let ones : Rose SymbolId := .node 0 [one, one]
    let candidate (r : Rose SymbolId) : Candidate := { tree := .ofShape r, fitness := 0 }
    let first := [candidate ones, candidate (.node 0 [one, ones])]
    let second := [candidate ones, candidate (.node 0 [ones, one])]
    ∃ limit,
      let run := ((e.run limit).run (crossingWords 0)).run.1
      (rankings run.events = [(first, 0), (second, 1)] ∧ run.ending = .finished second) ∧
      (∀ number ranked, .ranked number ranked ∈ run.events → ∀ c ∈ ranked,
        Grammar.pairs.check c.tree = .ok () ∧ c.tree.symbol c.tree.root = 0 ∧
          c.tree.height ≤ 3) ∧
      ∃ d required, DepthTable.ofGrammar Grammar.pairs = .ok d ∧
        d.symbolLength Grammar.pairs 0 = some required ∧
        ∀ error, run.ending = .failed error ↔
          3 < required ∧ error = .depthUnsatisfiable required 3 := by
  intro d settings e one ones candidate first second
  have table : DepthTable.ofGrammar Grammar.pairs = .ok d := by cbv
  have standard : Standard .pairs ⟨fun _ _ => 0⟩ settings e := by
    refine .ofGrammar ?_
    unfold Engine.ofGrammar Initializer.ofGrammar Wheel.standard
    rw [table]
    rfl
  have population : (e.genesis 0 2 none).answer (crossingWords 0) =
      .ok (first.map Candidate.tree) := by
    change (Initializer.generate ⟨.pairs, d, 3⟩ 0 2 none).answer _ = _
    rw [WordStream.instRandomSource_eq_trying]
    decide +kernel
  have grown : (e.genesis 0 2 none).rest (crossingWords 0) = crossingWords 8 := by
    change (Initializer.generate ⟨.pairs, d, 3⟩ 0 2 none).rest _ = _
    rw [WordStream.instRandomSource_eq_trying]
    decide +kernel
  have ranked : e.ranking (first.map Candidate.tree) = first :=
    rank_eq_of_sorted (by decide +kernel)
  have ranked' : e.ranking (second.map Candidate.tree) = second :=
    rank_eq_of_sorted (by decide +kernel)
  let zero : Fin first.length := ⟨0, by decide⟩
  let last : Fin first.length := ⟨1, by decide⟩
  have picked : (((RankSelection.ofSize first.length).pick (by decide)).run
      (crossingWords 8)).run = (last, crossingWords 9) := by
    decide +kernel
  have pickedOther : (((RankSelection.ofSize first.length).pick (by decide)).run
      (crossingWords 9)).run = (zero, crossingWords 10) := by
    decide +kernel
  have selected : RandomSource.index32 100 (by decide) (crossingWords 10) =
      (6, crossingWords 11) :=
    WordStream.search_of_accept _ (by decide +kernel)
  have drawn : Drawn e first (crossingWords 8)
      ⟨last, zero, by decide, e.wheel.operatorAt 6, crossingWords 11⟩ :=
    .intro (by decide) (by decide) picked (.other pickedOther (by decide)) selected
  have crossed : (Crossover.cross .pairs 3 (first.get last).tree (first.get zero).tree).answer
      (crossingWords 11) = .ok (second.map Candidate.tree) := by
    rw [WordStream.instRandomSource_eq_trying]
    decide +kernel
  have bred : Breeds e first [] (crossingWords 8) (.ok (second.map Candidate.tree)) _ :=
    .full (.cons (by decide) drawn crossed .nil) (by decide)
  have history : History e (crossingWords 0) (first.map Candidate.tree) [first, second]
      (.ok second) :=
    .of_breeds population grown (by decide) rfl ranked rfl bred ranked'
  obtain ⟨⟨limit, whole⟩, told⟩ := history.run_eq
  obtain ⟨ended, reported⟩ := told limit whole
  exact ⟨limit, ⟨reported, ended⟩, run_outcome Grammar.pairs_built standard limit _⟩

end Engine

end GrammarEvolution
