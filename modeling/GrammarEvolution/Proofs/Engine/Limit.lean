import GrammarEvolution.Proofs.Engine.Course

/-!
What the limit of a run decides, and what it does not.

A limit cuts a run short or leaves it as it is. `Within x y` says that `y` does whatever `x` does
unless `x` is cut short; courses that are put together of such parts are such courses again, and so
a higher limit changes nothing in a run that comes to an end.

* `Within.bind`, `within_unfinished`: the rules for courses under a limit.
* `run_eq_of_le`: a run that is not cut short is the same under every higher limit.
-/

namespace GrammarEvolution

namespace Course

variable {σ α β : Type}

/-- The course comes upon its limit. -/
def CutShort (x : Course σ α) (log : Array Event) (s : σ) : Prop :=
  ∃ log' s', x.result log s = ((.error .unfinished, log'), s')

theorem cutShort_unfinished (log : Array Event) (s : σ) :
    CutShort (throw .unfinished : Course σ α) log s :=
  ⟨log, s, rfl⟩

theorem CutShort.bind {x : Course σ α} {log : Array Event} {s : σ} (h : x.CutShort log s)
    (f : α → Course σ β) : (x >>= f).CutShort log s := by
  obtain ⟨log', s', short⟩ := h
  exact ⟨log', s', by rw [result_bind, short]⟩

/-- Unless `x` is cut short, `y` comes to the same. -/
def Within (x y : Course σ α) : Prop :=
  ∀ log s, x.CutShort log s ∨ x.result log s = y.result log s

theorem within_refl (x : Course σ α) : Within x x :=
  fun _ _ => .inr rfl

theorem within_unfinished (y : Course σ α) : Within (throw .unfinished) y :=
  fun log s => .inl (cutShort_unfinished log s)

theorem Within.bind {x y : Course σ α} {f g : α → Course σ β} (h : Within x y)
    (next : ∀ a, Within (f a) (g a)) : Within (x >>= f) (y >>= g) := by
  intro log s
  rcases h log s with short | same
  · exact .inl (short.bind f)
  · unfold CutShort
    rw [result_bind, result_bind, ← same]
    rcases x.result log s with ⟨⟨halt | a, log'⟩, s'⟩
    · exact .inr rfl
    · exact next a log' s'

end Course

namespace Engine

open Course

variable {σ V : Type} [RandomSource σ] {e : Engine σ V} {limit limit' : Nat}

theorem pickOther_within {n : Nat} (selection : RankSelection n) (h : 0 < n) (taken : Fin n)
    (more : limit ≤ limit') :
    Within (pickOther selection h taken limit : Course σ (Fin n))
      (pickOther selection h taken limit') := by
  induction limit generalizing limit' with
  | zero => exact within_unfinished _
  | succ limit ih =>
      obtain ⟨limit', rfl⟩ : ∃ l, limit' = l + 1 := ⟨limit' - 1, by omega⟩
      unfold pickOther
      refine (within_refl _).bind fun i => ?_
      split
      · exact ih (by omega)
      · exact within_refl _

theorem breedingRound_within {ranked : List Candidate} (selection : RankSelection ranked.length)
    (more : limit ≤ limit') :
    Within (e.breedingRound limit ranked selection) (e.breedingRound limit' ranked selection) := by
  unfold breedingRound roundBy
  split
  · refine (within_refl _).bind fun first => ?_
    exact (pickOther_within selection _ first more).bind fun second => within_refl _
  · exact within_refl _

theorem fill_within {ranked : List Candidate} (selection : RankSelection ranked.length)
    {rounds rounds' : Nat} (more : limit ≤ limit') (longer : rounds ≤ rounds') (barren : Nat)
    (next : List Tree) :
    Within (e.fill limit ranked selection rounds barren next)
      (e.fill limit' ranked selection rounds' barren next) := by
  induction rounds generalizing rounds' barren next with
  | zero =>
      unfold fill
      split
      · exact within_refl _
      · exact within_unfinished _
  | succ rounds ih =>
      obtain ⟨rounds', rfl⟩ : ∃ r, rounds' = r + 1 := ⟨rounds' - 1, by omega⟩
      unfold fill
      split
      · exact within_refl _
      · refine (breedingRound_within selection more).bind fun offspring => ?_
        dsimp only
        split
        · split
          · exact (within_refl _).bind fun _ => ih (by omega) _ _
          · exact ih (by omega) _ _
        · exact ih (by omega) _ _

theorem evolve_within (more : limit ≤ limit') (breedings number : Nat) (population : List Tree) :
    Within (e.evolve limit breedings number population)
      (e.evolve limit' breedings number population) := by
  induction breedings generalizing number population with
  | zero =>
      unfold evolve
      exact within_refl _
  | succ breedings ih =>
      unfold evolve
      refine (within_refl _).bind fun _ => ?_
      dsimp only
      split
      · exact within_refl _
      · exact (fill_within _ more more 0 []).bind fun next => ih (number + 1) next

theorem course_within (more : limit ≤ limit') : Within (e.course limit) (e.course limit') := by
  unfold course
  refine (within_refl _).bind fun population => ?_
  dsimp only
  split
  · exact (within_refl _).bind fun _ => evolve_within more _ 0 population
  · exact evolve_within more _ 0 population

/-- The ending of a run whose course comes to this. -/
def endingOf : Except Halt (List Candidate) → Ending
  | .ok last => .finished last
  | .error (.failed error) => .failed error
  | .error .unfinished => .unfinished

theorem run_eq_result (e : Engine σ V) (limit : Nat) (s : σ) :
    ((e.run limit).run s).run = match (e.course limit).result #[] s with
      | ((result, log), s') => (⟨log.toList, endingOf result⟩, s') :=
  rfl

/-- **A higher limit changes nothing** in a run that comes to an end. -/
theorem run_eq_of_le (more : limit ≤ limit') (s : σ)
    (ended : ((e.run limit).run s).run.1.ending ≠ .unfinished) :
    ((e.run limit').run s).run = ((e.run limit).run s).run := by
  rw [run_eq_result] at ended ⊢
  rw [run_eq_result]
  rcases course_within more #[] s with ⟨log', s', short⟩ | same
  · rw [short] at ended
    exact absurd rfl ended
  · rw [same]

end Engine

end GrammarEvolution
