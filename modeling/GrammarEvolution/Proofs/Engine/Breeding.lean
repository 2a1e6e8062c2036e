import GrammarEvolution.Proofs.Engine.Limit

/-!
What a breeding does: round after round until a population is full.

`Round` has all that is drawn in one round, and `Rounds` is a sequence of them with what each
contributed; neither knows of limits or reports. A breeding that a limit does not cut short comes
down to such a sequence, and every such sequence is what breedings do under every limit that is high
enough. A sequence ends with a full population or with an operator that fails.

* `Rounds.partial_lt`, `Rounds.applied`: no round is one too many, and what each contributes.
* `fill_cases`: a breeding is cut short, or fills a population, or an operator fails.
* `Breeds.breed_eq`: under every limit that is high enough it is not cut short.
-/

namespace GrammarEvolution

open Course

/-! ### Reported generations -/

/-- The generation that an event reports, and its number. -/
def Event.ranking? : Event → Option (List Candidate × Nat)
  | .ranked generation candidates => some (candidates, generation)
  | .barren _ _ => none

/-- The generations that have been reported, in order, each with its number. -/
def rankings (events : List Event) : List (List Candidate × Nat) :=
  events.filterMap Event.ranking?

@[simp] theorem rankings_append (events events' : List Event) :
    rankings (events ++ events') = rankings events ++ rankings events' :=
  List.filterMap_append

@[simp] theorem rankings_ranked (number : Nat) (ranked : List Candidate) :
    rankings [.ranked number ranked] = [(ranked, number)] :=
  rfl

@[simp] theorem rankings_barren (rounds filled : Nat) : rankings [.barren rounds filled] = [] :=
  rfl

namespace Engine

variable {σ V : Type} [RandomSource σ]

/-! ### Rounds -/

/-- A round of a breeding from `n` candidates: two ranks, the operator that the wheel selected, if
it selected one, and the state of the source after these draws. -/
structure Round (σ : Type) (n : Nat) where
  first : Fin n
  second : Fin n
  distinct : second ≠ first
  operator : Option (Operator σ)
  source : σ

omit [RandomSource σ] in
/-- What a round contributes: what the operator makes of the two candidates, or nothing. -/
def Round.offspring {ranked : List Candidate} (r : Round σ ranked.length) :
    Sampling σ (List Tree) :=
  match r.operator with
  | some operator => operator.evolve [(ranked.get r.first).tree, (ranked.get r.second).tree]
  | none => return []

/-- A rank other than `taken` is picked in the end. -/
inductive Redraws {n : Nat} (selection : RankSelection n) (inhabited : 0 < n) (taken : Fin n) :
    σ → Fin n → σ → Prop where
  | other {s s' : σ} {i : Fin n} : ((selection.pick inhabited).run s).run = (i, s') → i ≠ taken →
      Redraws selection inhabited taken s i s'
  | again {s s' s'' : σ} {i : Fin n} : ((selection.pick inhabited).run s).run = (taken, s') →
      Redraws selection inhabited taken s' i s'' → Redraws selection inhabited taken s i s''

/-- A round is drawn, from a state of the source. -/
inductive Drawn (e : Engine σ V) (ranked : List Candidate) :
    σ → Round σ ranked.length → Prop where
  | intro {s s₁ s₂ s₃ : σ} {first second : Fin ranked.length} {draw : Fin 100}
      (inhabited : 0 < ranked.length) (distinct : second ≠ first) :
      (((RankSelection.ofSize ranked.length).pick inhabited).run s).run = (first, s₁) →
      Redraws (RankSelection.ofSize ranked.length) inhabited first s₁ second s₂ →
      RandomSource.index32 100 (by decide) s₂ = (draw, s₃) →
      Drawn e ranked s ⟨first, second, distinct, e.wheel.operatorAt draw, s₃⟩

/-- Rounds are carried out one after the other, with these outputs, as long as there are not enough
trees together with those of `next`. -/
inductive Rounds (e : Engine σ V) (ranked : List Candidate) :
    List Tree → σ → List (List Tree) → σ → Prop where
  | nil {next : List Tree} {s : σ} : Rounds e ranked next s [] s
  | cons {next output : List Tree} {outputs : List (List Tree)} {s s' : σ}
      {r : Round σ ranked.length} :
      next.length < e.settings.populationSize → Drawn e ranked s r →
      r.offspring.answer r.source = .ok output →
      Rounds e ranked (next ++ output) (r.offspring.rest r.source) outputs s' →
      Rounds e ranked next s (output :: outputs) s'

/-- A breeding goes on from `next` until there are enough trees, or until an operator fails. What is
too many is cut off. -/
inductive Breeds (e : Engine σ V) (ranked : List Candidate) (next : List Tree) (s : σ) :
    Except Error (List Tree) → σ → Prop where
  | full {outputs : List (List Tree)} {s' : σ} : Rounds e ranked next s outputs s' →
      e.settings.populationSize ≤ (next ++ outputs.flatten).length →
      Breeds e ranked next s (.ok ((next ++ outputs.flatten).take e.settings.populationSize)) s'
  | failed {outputs : List (List Tree)} {s' : σ} {r : Round σ ranked.length} {error : Error} :
      Rounds e ranked next s outputs s' →
      (next ++ outputs.flatten).length < e.settings.populationSize → Drawn e ranked s' r →
      r.offspring.answer r.source = .error error →
      Breeds e ranked next s (.error error) (r.offspring.rest r.source)

/-- An operator of the wheel, applied to two candidates at different ranks, answers this. -/
def Applied (e : Engine σ V) (ranked : List Candidate) (answer : Except Error (List Tree)) : Prop :=
  ∃ operator ∈ e.wheel.operators, ∃ first second : Fin ranked.length, second ≠ first ∧
    ∃ s : σ, (operator.evolve [(ranked.get first).tree, (ranked.get second).tree]).answer s = answer

variable {e : Engine σ V} {ranked : List Candidate} {next : List Tree} {s s' : σ}
  {outputs : List (List Tree)}

theorem Drawn.applied {r : Round σ ranked.length} {answer : Except Error (List Tree)}
    (h : Drawn e ranked s r) (answered : r.offspring.answer r.source = answer) :
    answer = .ok [] ∨ e.Applied ranked answer := by
  cases h with
  | intro inhabited distinct _ _ _ =>
      unfold Round.offspring at answered
      dsimp only at answered
      split at answered
      · rename_i operator selected
        exact .inr ⟨operator, Wheel.mem_of_operatorAt selected, _, _, distinct, _, answered⟩
      · exact .inl answered.symm

/-- Every round has applied an operator to two candidates at different ranks, or has contributed
nothing. -/
theorem Rounds.applied (h : Rounds e ranked next s outputs s') :
    ∀ output ∈ outputs, output = [] ∨ e.Applied ranked (.ok output) := by
  induction h with
  | nil => simp
  | cons _ drawn contributed _ ih =>
      simp only [List.mem_cons, forall_eq_or_imp]
      refine ⟨?_, ih⟩
      simpa using drawn.applied contributed

/-- Before every round there are too few trees. -/
theorem Rounds.partial_lt (h : Rounds e ranked next s outputs s') :
    ∀ k < outputs.length,
      (next ++ (outputs.take k).flatten).length < e.settings.populationSize := by
  induction h with
  | nil => simp
  | cons short _ _ _ ih =>
      intro k inside
      cases k with
      | zero => simpa using short
      | succ k =>
          rw [List.length_cons, Nat.add_lt_add_iff_right] at inside
          simpa using ih k inside

theorem breeds_full (full : e.settings.populationSize ≤ next.length) :
    Breeds e ranked next s (.ok (next.take e.settings.populationSize)) s := by
  simpa using Breeds.full (.nil (s := s)) (by simpa using full)

/-- A round may be put before a breeding. -/
theorem Breeds.cons {r : Round σ ranked.length} {output : List Tree}
    {answer : Except Error (List Tree)} (short : next.length < e.settings.populationSize)
    (drawn : Drawn e ranked s r) (contributed : r.offspring.answer r.source = .ok output)
    (h : Breeds e ranked (next ++ output) (r.offspring.rest r.source) answer s') :
    Breeds e ranked next s answer s' := by
  cases h with
  | full rounds enough =>
      rw [List.append_assoc, ← List.flatten_cons] at enough ⊢
      exact .full (.cons short drawn contributed rounds) enough
  | failed rounds few drawn' failure =>
      rw [List.append_assoc, ← List.flatten_cons] at few
      exact .failed (.cons short drawn contributed rounds) few drawn' failure

/-- A breeding that does not fail has exactly as many trees as it shall have. -/
theorem Breeds.length_eq {trees : List Tree} (h : Breeds e ranked next s (.ok trees) s') :
    trees.length = e.settings.populationSize := by
  cases h with
  | full _ enough => rw [List.length_take, Nat.min_eq_left enough]

/-- A breeding breaks off with the error of an operator. -/
theorem Breeds.applied {error : Error} (h : Breeds e ranked next s (.error error) s') :
    e.Applied ranked (.error error) := by
  cases h with
  | failed _ _ drawn failure => exact (drawn.applied failure).resolve_left nofun

/-! ### What breedings come to -/

theorem pickOther_cases {n : Nat} (selection : RankSelection n) (inhabited : 0 < n)
    (taken : Fin n) (limit : Nat) (log : Array Event) (s : σ) :
    (pickOther selection inhabited taken limit : Course σ (Fin n)).CutShort log s ∨
    ∃ i s', i ≠ taken ∧ Redraws selection inhabited taken s i s' ∧
      (pickOther selection inhabited taken limit : Course σ (Fin n)).result log s =
        ((.ok i, log), s') := by
  induction limit generalizing s with
  | zero => exact .inl (cutShort_unfinished log s)
  | succ limit ih =>
      rcases picked : ((selection.pick inhabited).run s).run with ⟨i, s'⟩
      unfold CutShort
      rw [pickOther, result_bind, result_lift, picked]
      dsimp only
      by_cases same : i = taken
      · subst same
        simp only [if_true]
        rcases ih s' with short | ⟨j, s'', distinct, redraws, result⟩
        · exact .inl short
        · exact .inr ⟨j, s'', distinct, .again picked redraws, result⟩
      · rw [if_neg same]
        exact .inr ⟨i, s', same, .other picked same, rfl⟩

/-- A round contributes the offspring of its operator, once its draws are known. -/
theorem breedingRound_of_draws {limit : Nat} {log : Array Event} {s s₁ s₂ s₃ : σ}
    {first second : Fin ranked.length} {draw : Fin 100} (inhabited : 0 < ranked.length)
    (distinct : second ≠ first)
    (picked : (((RankSelection.ofSize ranked.length).pick inhabited).run s).run = (first, s₁))
    (pickedOther : (pickOther (.ofSize _) inhabited first limit : Course σ (Fin _)).result log s₁ =
      ((.ok second, log), s₂))
    (drawn : RandomSource.index32 100 (by decide) s₂ = (draw, s₃)) :
    let r : Round σ ranked.length := ⟨first, second, distinct, e.wheel.operatorAt draw, s₃⟩
    (e.breedingRound limit ranked (.ofSize _)).result log s =
      (sample r.offspring).result log r.source := by
  have answer : (Sampling.index32 100 (by decide) : Sampling σ (Fin 100)).answer s₂ = .ok draw :=
    congrArg (fun d : Fin 100 × σ => Except.ok d.1) drawn
  have rest : (Sampling.index32 100 (by decide) : Sampling σ (Fin 100)).rest s₂ = s₃ :=
    congrArg Prod.snd drawn
  rw [breedingRound, roundBy, dif_pos inhabited, result_bind, result_lift, picked]
  dsimp only
  rw [result_bind, pickedOther]
  dsimp only
  rw [result_bind, result_sample, answer, rest]
  dsimp only [Round.offspring]
  cases e.wheel.operatorAt draw <;> rfl

theorem breedingRound_cases (inhabited : 0 < ranked.length) (limit : Nat) (log : Array Event)
    (s : σ) :
    (e.breedingRound limit ranked (.ofSize _)).CutShort log s ∨
    ∃ r, Drawn e ranked s r ∧ (e.breedingRound limit ranked (.ofSize _)).result log s =
      (sample r.offspring).result log r.source := by
  rcases picked : (((RankSelection.ofSize ranked.length).pick inhabited).run s).run with
    ⟨first, s₁⟩
  rcases pickOther_cases (.ofSize _) inhabited first limit log s₁ with
    short | ⟨second, s₂, distinct, redraws, pickedOther⟩
  · left
    unfold CutShort
    rw [breedingRound, roundBy, dif_pos inhabited, result_bind, result_lift, picked]
    exact short.bind _
  · right
    exact ⟨_, .intro inhabited distinct picked redraws rfl,
      breedingRound_of_draws inhabited distinct picked pickedOther rfl⟩

section Step

variable {limit : Nat} {log : Array Event} {r : Round σ ranked.length}
  (round : (e.breedingRound limit ranked (.ofSize _)).result log s =
    (sample r.offspring).result log r.source)
  (short : next.length < e.settings.populationSize) (rounds barren : Nat)

include round short

/-- A round adds what it contributes, be it nothing, and reports no generation. -/
theorem fill_round {output : List Tree} (answer : r.offspring.answer r.source = .ok output) :
    ∃ barren' log', rankings log'.toList = rankings log.toList ∧
      (e.fill limit ranked (.ofSize _) (rounds + 1) barren next).result log s =
        (e.fill limit ranked (.ofSize _) rounds barren' (next ++ output)).result log'
          (r.offspring.rest r.source) := by
  rw [fill, if_neg (Nat.not_le_of_lt short), result_bind, round, result_sample, answer]
  dsimp only
  cases output with
  | nil =>
      simp only [List.isEmpty_nil, if_true, List.append_nil]
      split
      · exact ⟨barren + 1, log.push (.barren (barren + 1) next.length), by simp, rfl⟩
      · exact ⟨barren + 1, log, rfl, rfl⟩
  | cons tree trees => exact ⟨0, log, rfl, rfl⟩

theorem fill_failed {error : Error} (answer : r.offspring.answer r.source = .error error) :
    (e.fill limit ranked (.ofSize _) (rounds + 1) barren next).result log s =
      ((.error (.failed error), log), r.offspring.rest r.source) := by
  rw [fill, if_neg (Nat.not_le_of_lt short), result_bind, round, result_sample, answer]

end Step

/-- A population that is full is cut off to its exact size. -/
theorem fill_full (full : e.settings.populationSize ≤ next.length) (limit rounds barren : Nat)
    (log : Array Event) (s : σ) :
    (e.fill limit ranked (.ofSize _) rounds barren next).result log s =
      ((.ok (next.take e.settings.populationSize), log), s) := by
  unfold fill
  rw [if_pos full]
  rfl

/-- **What filling up comes to.** Unless it is cut short, it fills the population or breaks off. -/
theorem fill_cases (inhabited : 0 < e.settings.populationSize → 0 < ranked.length)
    (limit rounds barren : Nat) (next : List Tree) (log : Array Event) (s : σ) :
    (e.fill limit ranked (.ofSize _) rounds barren next).CutShort log s ∨
    ∃ answer s' log', Breeds e ranked next s answer s' ∧
      rankings log'.toList = rankings log.toList ∧
      (e.fill limit ranked (.ofSize _) rounds barren next).result log s =
        ((answer.mapError .failed, log'), s') := by
  -- The induction is on the rounds that are left; reports of empty rounds change the log, but not
  -- its generations.
  induction rounds generalizing barren next log s with
  | zero =>
      rcases Nat.lt_or_ge next.length e.settings.populationSize with short | full
      · left
        rw [fill, if_neg (Nat.not_le_of_lt short)]
        exact cutShort_unfinished log s
      · exact .inr ⟨_, s, log, breeds_full full, rfl, fill_full full limit 0 barren log s⟩
  | succ rounds ih =>
      rcases Nat.lt_or_ge next.length e.settings.populationSize with short | full
      · rcases breedingRound_cases (inhabited (Nat.zero_lt_of_lt short)) limit log s with
          unfinished | ⟨r, drawn, round⟩
        · left
          rw [fill, if_neg (Nat.not_le_of_lt short)]
          exact unfinished.bind _
        · rcases contributed : r.offspring.answer r.source with error | output
          · have ended : Breeds e ranked next s (.error error) (r.offspring.rest r.source) :=
              .failed .nil (by simpa using short) drawn contributed
            exact .inr ⟨_, _, log, ended, rfl, fill_failed round short rounds barren contributed⟩
          · obtain ⟨barren', log', kept, same⟩ := fill_round round short rounds barren contributed
            unfold CutShort
            rw [same]
            rcases ih barren' (next ++ output) log' (r.offspring.rest r.source) with
              unfinished | ⟨answer, s', log'', breeds, kept', ended⟩
            · exact .inl unfinished
            · exact .inr ⟨answer, s', log'', breeds.cons short drawn contributed,
                kept'.trans kept, ended⟩
      · exact .inr ⟨_, s, log, breeds_full full, rfl, fill_full full limit _ barren log s⟩

/-! ### What every limit that is high enough leaves room for -/

theorem Redraws.pickOther_eq {n : Nat} {selection : RankSelection n} {inhabited : 0 < n}
    {taken i : Fin n} (h : Redraws selection inhabited taken s i s') :
    ∃ enough, ∀ limit, enough ≤ limit → ∀ log,
      (pickOther selection inhabited taken limit : Course σ (Fin n)).result log s =
        ((.ok i, log), s') := by
  induction h with
  | other picked distinct =>
      refine ⟨1, ?_⟩
      intro limit high log
      obtain ⟨limit, rfl⟩ : ∃ l, limit = l + 1 := ⟨limit - 1, by omega⟩
      rw [pickOther, result_bind, result_lift, picked]
      dsimp only
      rw [if_neg distinct]
      rfl
  | again picked _ ih =>
      obtain ⟨enough, same⟩ := ih
      refine ⟨enough + 1, ?_⟩
      intro limit high log
      obtain ⟨limit, rfl⟩ : ∃ l, limit = l + 1 := ⟨limit - 1, by omega⟩
      rw [pickOther, result_bind, result_lift, picked]
      dsimp only
      rw [if_pos rfl]
      exact same limit (by omega) log

theorem Drawn.breedingRound_eq {r : Round σ ranked.length} (h : Drawn e ranked s r) :
    ∃ enough, ∀ limit, enough ≤ limit → ∀ log,
      (e.breedingRound limit ranked (.ofSize _)).result log s =
        (sample r.offspring).result log r.source := by
  cases h with
  | intro inhabited distinct picked redraws drawn =>
      obtain ⟨enough, pickedOther⟩ := redraws.pickOther_eq
      refine ⟨enough, ?_⟩
      intro limit high log
      exact breedingRound_of_draws inhabited distinct picked (pickedOther limit high log) drawn

theorem Rounds.fill_eq (h : Rounds e ranked next s outputs s') :
    ∃ enough, ∀ limit, enough ≤ limit → ∀ rounds barren log,
      ∃ barren' log', rankings log'.toList = rankings log.toList ∧
        (e.fill limit ranked (.ofSize _) (rounds + outputs.length) barren next).result log s =
          (e.fill limit ranked (.ofSize _) rounds barren' (next ++ outputs.flatten)).result log'
            s' := by
  induction h with
  | nil =>
      refine ⟨0, ?_⟩
      intro limit _ rounds barren log
      exact ⟨barren, log, rfl, by simp⟩
  | cons short drawn contributed _ ih =>
      obtain ⟨enough, round⟩ := drawn.breedingRound_eq
      obtain ⟨enough', later⟩ := ih
      refine ⟨max enough enough', ?_⟩
      intro limit high rounds barren log
      obtain ⟨barren', log', kept, first⟩ := fill_round (round limit (by omega) log) short
        (rounds + _) barren contributed
      obtain ⟨barren'', log'', kept', rest⟩ := later limit (by omega) rounds barren' log'
      refine ⟨barren'', log'', kept'.trans kept, ?_⟩
      rw [List.length_cons, ← Nat.add_assoc, first, rest, List.flatten_cons, List.append_assoc]

/-- **Every breeding takes place** under every limit that is high enough. -/
theorem Breeds.breed_eq {answer : Except Error (List Tree)} (h : Breeds e ranked [] s answer s') :
    ∃ enough, ∀ limit, enough ≤ limit → ∀ log, ∃ log',
      rankings log'.toList = rankings log.toList ∧
        (e.breed limit ranked).result log s = ((answer.mapError .failed, log'), s') := by
  cases h with
  | @full outputs _ rounds full =>
      obtain ⟨enough, filled⟩ := rounds.fill_eq
      refine ⟨max enough outputs.length, ?_⟩
      intro limit high log
      obtain ⟨barren', log', kept, same⟩ := filled limit (by omega) (limit - outputs.length) 0 log
      refine ⟨log', kept, ?_⟩
      rw [Nat.sub_add_cancel (by omega)] at same
      rw [breed, same, fill_full full]
      rfl
  | @failed outputs _ _ _ rounds short drawn failure =>
      obtain ⟨enough, filled⟩ := rounds.fill_eq
      obtain ⟨enough', round⟩ := drawn.breedingRound_eq
      refine ⟨max (max enough enough') (outputs.length + 1), ?_⟩
      intro limit high log
      obtain ⟨barren', log', kept, same⟩ := filled limit (by omega)
        (limit - outputs.length - 1 + 1) 0 log
      refine ⟨log', kept, ?_⟩
      rw [show limit - outputs.length - 1 + 1 + outputs.length = limit by omega] at same
      rw [breed, same, fill_failed (round limit (by omega) log') short _ _ failure]
      rfl

end Engine

end GrammarEvolution
