import GrammarEvolution.Proofs.Basic
import GrammarEvolution.Random.Pool
import Mathlib.Data.List.Induction

/-!
What samplings answer.

A random source may answer anything within its bounds, so what is claimed of a sampling is claimed
of every state of its source. `Always` says that a sampling never fails and that all its answers
have a property.

* `Always.bind`, `Always.mapM`: one rule for each way in which samplings are put together.
* `Pool.perm_without`: a draw rearranges a pool and takes nothing away but what it draws.
* `Pool.always_firstDrawn`: what is found in a pool was made of one of its elements, and a search
  without result has tried them all.
-/

namespace GrammarEvolution

namespace Sampling

variable {σ α β : Type}

/-- The answer from one state of the source. -/
def answer (x : Sampling σ α) (s : σ) : Except Error α :=
  (x.run.run s).run.1

/-- The state in which the source is left. -/
def rest (x : Sampling σ α) (s : σ) : σ :=
  (x.run.run s).run.2

/-- The rest of a computation starts where the first part left the source. -/
theorem answer_bind (x : Sampling σ α) (f : α → Sampling σ β) (s : σ) :
    (x >>= f).answer s = (x.answer s).bind fun a => (f a).answer (x.rest s) := by
  simp only [answer, rest, ExceptT.run_bind, StateT.run_bind, Id.run_bind]
  cases (x.run.run s).run.1 <;> rfl

theorem rest_bind {x : Sampling σ α} {a : α} {s : σ} (h : x.answer s = .ok a)
    (f : α → Sampling σ β) : (x >>= f).rest s = (f a).rest (x.rest s) := by
  simp only [answer, rest, ExceptT.run_bind, StateT.run_bind, Id.run_bind] at h ⊢
  rw [h]

/-- The sampling answers, whatever the source does, and its answers satisfy `P`. -/
def Always (x : Sampling σ α) (P : α → Prop) : Prop :=
  ∀ s, ∃ a, x.answer s = .ok a ∧ P a

/-! ### Rules -/

variable {x : Sampling σ α} {P P' : α → Prop} {Q : β → Prop}

theorem always_pure {a : α} (h : P a) : Always (pure a : Sampling σ α) P :=
  fun _ => ⟨a, rfl, h⟩

/-- A part that draws nothing. -/
theorem always_lift {e : Except Error α} {a : α} (h : e = .ok a) (ha : P a) :
    Always (liftM e : Sampling σ α) P := by
  subst h
  exact always_pure ha

theorem Always.mono (h : x.Always P) (weaker : ∀ a, P a → P' a) : x.Always P' := by
  intro s
  obtain ⟨a, ok, ha⟩ := h s
  exact ⟨a, ok, weaker a ha⟩

theorem Always.bind {f : α → Sampling σ β} (h : x.Always P) (next : ∀ a, P a → (f a).Always Q) :
    (x >>= f).Always Q := by
  intro s
  obtain ⟨a, ok, ha⟩ := h s
  obtain ⟨b, ok', hb⟩ := next a ha (x.rest s)
  exact ⟨b, by rw [answer_bind, ok]; exact ok', hb⟩

theorem always_lift_bind {e : Except Error α} {a : α} {f : α → Sampling σ β} (h : e = .ok a)
    (next : (f a).Always Q) : ((liftM e : Sampling σ α) >>= f).Always Q := by
  subst h
  exact next

/-- Answers for the elements of a list come in the order of the list. -/
theorem Always.mapM {xs : List α} {f : α → Sampling σ β} {R : α → β → Prop}
    (h : ∀ a ∈ xs, (f a).Always (R a)) : Always (xs.mapM f) (List.Forall₂ R xs) := by
  induction xs with
  | nil => exact always_pure .nil
  | cons a xs ih =>
      rw [List.mapM_cons]
      refine (h a List.mem_cons_self).bind fun b hb => ?_
      refine (ih fun c hc => h c (List.mem_cons_of_mem _ hc)).bind fun bs hbs => ?_
      exact always_pure (.cons hb hbs)

/-! ### Draws -/

variable [RandomSource σ]

theorem always_index32 (n : Nat) (h : 0 < n) :
    Always (index32 n h : Sampling σ (Fin n)) fun _ => True :=
  fun _ => ⟨_, rfl, trivial⟩

theorem always_index64 (n : Nat) (h : 0 < n) :
    Always (index64 n h : Sampling σ (Fin n)) fun _ => True :=
  fun _ => ⟨_, rfl, trivial⟩

/-- A choice from a list that is not empty is one of its elements. -/
theorem always_choose {xs : List α} (h : xs ≠ []) :
    Always (choose xs : Sampling σ (Option α)) fun found => ∃ a ∈ xs, found = some a := by
  have inhabited : 0 < xs.length := List.length_pos_iff.mpr h
  rw [choose, dif_pos inhabited]
  exact (always_index32 xs.length inhabited).bind fun i _ =>
    always_pure ⟨_, xs.get_mem i, rfl⟩

end Sampling

namespace Pool

open Sampling

variable {σ α β : Type}

/-- A draw takes one element away and keeps the others. -/
theorem perm_without (pool : List α) (i : Fin pool.length) :
    (pool.get i :: without pool i).Perm pool := by
  cases pool using List.reverseRecOn with
  | nil => exact i.elim0
  | append_singleton init last =>
      obtain ⟨i, inside⟩ := i
      rw [List.length_append, List.length_singleton] at inside
      rcases Nat.lt_succ_iff_lt_or_eq.mp inside with before | rfl
      · have slot : init[i]? = some init[i] := List.getElem?_eq_getElem before
        obtain ⟨front, back, split, put⟩ := List.split_at_slot slot
        have gap : without (init ++ [last]) ⟨i, by simpa using inside⟩ = front ++ last :: back := by
          rw [← put]
          simp [without, List.set_append_left _ _ before]
        have drawn : (init ++ [last]).get ⟨i, by simpa using inside⟩ = init[i] := by
          simp [List.getElem_append_left before]
        rw [gap, drawn]
        -- The last element stands where the drawn one stood.
        refine (List.perm_middle.cons _).trans ?_
        refine (List.Perm.swap last init[i] (front ++ back)).trans ?_
        refine (List.perm_middle.symm.cons last).trans ?_
        rw [← split]
        exact (List.perm_append_singleton last init).symm
      · simp [without, (List.perm_append_singleton last init).symm]

theorem mem_of_mem_without {pool : List α} {i : Fin pool.length} {a : α}
    (h : a ∈ without pool i) : a ∈ pool :=
  (perm_without pool i).subset (List.mem_cons_of_mem _ h)

variable [RandomSource σ]

/-- What is found is what an attempt made of some element of the pool, and when nothing is found
every element has been tried in vain. -/
theorem always_firstDrawn {pool : List α} {attempt : α → Sampling σ (Option β)}
    {R : α → Option β → Prop} (h : ∀ a ∈ pool, (attempt a).Always (R a)) :
    Always (firstDrawn pool attempt) fun found =>
      (∀ b, found = some b → ∃ a ∈ pool, R a (some b)) ∧
        (found = none → ∀ a ∈ pool, R a none) := by
  induction pool using firstDrawn.induct with
  | case1 pool inhabited ih =>
      rw [firstDrawn, dif_pos inhabited]
      refine (always_index64 pool.length inhabited).bind fun i _ => ?_
      refine (h _ (pool.get_mem i)).bind fun found made => ?_
      cases found with
      | some b =>
          refine always_pure ⟨fun c hc => ?_, nofun⟩
          obtain rfl := Option.some.inj hc
          exact ⟨_, pool.get_mem i, made⟩
      | none =>
          have later := ih i fun a ha => h a (mem_of_mem_without ha)
          refine later.mono fun found' each => ?_
          constructor
          · intro b hb
            obtain ⟨a, ha, hb⟩ := each.1 b hb
            exact ⟨a, mem_of_mem_without ha, hb⟩
          · intro vain a ha
            rcases List.mem_cons.mp ((perm_without pool i).mem_iff.mpr ha) with rfl | ha
            · exact made
            · exact each.2 vain a ha
  | case2 pool empty =>
      rw [firstDrawn, dif_neg empty]
      refine always_pure ⟨nofun, ?_⟩
      intro _ a ha
      exact absurd (List.length_pos_of_mem ha) empty

/-- The same where it does not matter which element something was made of. -/
theorem always_firstDrawn_of {pool : List α} {attempt : α → Sampling σ (Option β)} {P : β → Prop}
    {Q : α → Prop} (h : ∀ a ∈ pool, (attempt a).Always fun found =>
      (∀ b, found = some b → P b) ∧ (found = none → Q a)) :
    Always (firstDrawn pool attempt) fun found =>
      (∀ b, found = some b → P b) ∧ (found = none → ∀ a ∈ pool, Q a) := by
  refine (always_firstDrawn h).mono fun found searched => ?_
  constructor
  · intro b hb
    obtain ⟨a, -, made, -⟩ := searched.1 b hb
    exact made b rfl
  · intro vain a ha
    exact (searched.2 vain a ha).2 rfl

end Pool

end GrammarEvolution
