import Mathlib.Data.List.Forall2

/-!
Facts about failures and about lists that the whole theory shares.
-/

namespace Except

variable {ε α β : Type}

theorem throw_bind (e : ε) (f : α → Except ε β) : ((throw e : Except ε α) >>= f) = throw e :=
  rfl

/-- A computation in two parts succeeds when both do. -/
theorem bind_eq_ok_iff {x : Except ε α} {f : α → Except ε β} {b : β} :
    (x >>= f) = .ok b ↔ ∃ a, x = .ok a ∧ f a = .ok b := by
  constructor
  · intro h
    cases x with
    | ok a => exact ⟨a, rfl, h⟩
    | error e => cases h
  · rintro ⟨a, rfl, h⟩
    exact h

theorem map_eq_ok_iff {x : Except ε α} {f : α → β} {b : β} :
    x.map f = .ok b ↔ ∃ a, x = .ok a ∧ f a = b := by
  cases x <;> simp [Except.map]

theorem exists_map_eq_ok_iff {x : Except ε α} {f : α → β} :
    (∃ b, x.map f = .ok b) ↔ ∃ a, x = .ok a := by
  cases x <;> simp [Except.map]

/-- What went wrong, if anything did. -/
def error? : Except ε α → Option ε
  | .ok _ => none
  | .error e => some e

@[simp] theorem error?_ok (a : α) : (.ok a : Except ε α).error? = none := rfl

@[simp] theorem error?_error (e : ε) : (.error e : Except ε α).error? = some e := rfl

@[simp] theorem error?_eq_none_iff {x : Except ε α} : x.error? = none ↔ ∃ a, x = .ok a := by
  cases x <;> simp

@[simp] theorem error?_eq_some_iff {x : Except ε α} {e : ε} : x.error? = some e ↔ x = .error e := by
  cases x <;> simp

/-- The first part that fails decides. -/
theorem error?_bind (x : Except ε α) (f : α → Except ε β) :
    (x >>= f).error? = match x with
      | .ok a => (f a).error?
      | .error e => some e := by
  cases x <;> rfl

/-- A computation for each element fails as the first one that does. -/
theorem error?_mapM (f : α → Except ε β) (xs : List α) :
    (xs.mapM f).error? = xs.findSome? fun x => (f x).error? := by
  induction xs with
  | nil => rfl
  | cons x xs ih =>
      rw [List.mapM_cons, error?_bind, List.findSome?_cons, ← ih]
      cases f x with
      | error e => rfl
      | ok y => cases xs.mapM f <;> rfl

/-- A computation for each element succeeds when each does. -/
theorem mapM_eq_ok_iff {f : α → Except ε β} {xs : List α} {ys : List β} :
    xs.mapM f = .ok ys ↔ List.Forall₂ (fun x y => f x = .ok y) xs ys := by
  induction xs generalizing ys with
  | nil => simp [pure, Except.pure, eq_comm]
  | cons x xs ih =>
      rw [List.mapM_cons, List.forall₂_cons_left_iff]
      simp only [bind_eq_ok_iff, ← ih]
      constructor
      · rintro ⟨y, hy, zs, hzs, last⟩
        cases last
        exact ⟨y, zs, hy, hzs, rfl⟩
      · rintro ⟨y, zs, hy, hzs, rfl⟩
        exact ⟨y, hy, zs, hzs, rfl⟩

end Except

/-! ### Computations that fail and keep what they did -/

namespace ExceptT

variable {ε σ α β : Type}

/-- After a failure nothing more is done, and nothing undone. -/
theorem run_run_bind (x : ExceptT ε (StateM σ) α) (f : α → ExceptT ε (StateM σ) β) (s : σ) :
    (x >>= f).run.run s = match x.run.run s with
      | (.ok a, s') => (f a).run.run s'
      | (.error e, s') => (.error e, s') := by
  change (match x.run.run s with | (a, s') => (ExceptT.bindCont f a).run s') = _
  rcases x.run.run s with ⟨_ | a, s'⟩ <;> rfl

theorem run_run_get_bind (f : σ → ExceptT ε (StateM σ) α) (s : σ) :
    (get >>= f).run.run s = (f s).run.run s :=
  rfl

/-- A failure elsewhere leaves the state alone. -/
theorem run_run_lift_bind (x : Except ε α) (f : α → ExceptT ε (StateM σ) β) (s : σ) :
    ((x : ExceptT ε (StateM σ) α) >>= f).run.run s = match x with
      | .ok a => (f a).run.run s
      | .error e => (.error e, s) := by
  cases x <;> rfl

end ExceptT

namespace List

variable {α β : Type}

theorem foldl_max_le_iff (xs : List Nat) (m n : Nat) :
    xs.foldl max m ≤ n ↔ m ≤ n ∧ ∀ x ∈ xs, x ≤ n := by
  induction xs generalizing m with
  | nil => simp
  | cons x xs ih =>
      rw [foldl_cons, ih, forall_mem_cons, ← and_assoc]
      exact and_congr_left' (by omega)

theorem foldl_max_map_succ (xs : List Nat) (m : Nat) :
    (xs.map (· + 1)).foldl max (m + 1) = xs.foldl max m + 1 := by
  induction xs generalizing m with
  | nil => rfl
  | cons x xs ih =>
      rw [map_cons, foldl_cons, foldl_cons, ← ih]
      congr 1
      omega

/-- A list falls into what is before a slot, the slot, and what is after it. -/
theorem split_at_slot {xs : List α} {i : Nat} {x : α} (h : xs[i]? = some x) :
    ∃ before after, xs = before ++ x :: after ∧ ∀ y, xs.set i y = before ++ y :: after := by
  obtain ⟨inside, rfl⟩ := getElem?_eq_some_iff.mp h
  refine ⟨xs.take i, xs.drop (i + 1), ?_, fun y => set_eq_take_cons_drop y inside⟩
  rw [getElem_cons_drop, take_append_drop]

theorem split_of_singleton {xs ys : List α} {x y : α} (h : [x] = xs ++ y :: ys) :
    xs = [] ∧ x = y ∧ ys = [] := by
  cases xs with
  | nil => exact ⟨rfl, (cons.inj h).1, (cons.inj h).2.symm⟩
  | cons => simp at h

/-- A slot of a numbered list is a slot of the list, and its number tells what is before it. -/
theorem split_of_zipIdx {xs : List α} {before after : List (α × Nat)} {x : α} {n : Nat}
    (h : xs.zipIdx = before ++ (x, n) :: after) :
    xs = before.map Prod.fst ++ x :: after.map Prod.fst ∧ n = before.length := by
  constructor
  · simpa using congrArg (map Prod.fst) h
  · have here : xs.zipIdx[before.length]? = some (x, n) := by
      rw [h]
      simp
    rw [getElem?_zipIdx] at here
    obtain ⟨_, -, same⟩ := Option.map_eq_some_iff.mp here
    simpa using (congrArg Prod.snd same).symm

theorem modify_append_cons (f : α → α) (xs ys : List α) (x : α) :
    (xs ++ x :: ys).modify xs.length f = xs ++ f x :: ys := by
  induction xs with
  | nil => rfl
  | cons y xs ih => simp [ih]

theorem Forall₂.exists_of_mem_left {R : α → β → Prop} {xs : List α} {ys : List β}
    (h : Forall₂ R xs ys) {x : α} (hx : x ∈ xs) : ∃ y ∈ ys, R x y := by
  induction h with
  | nil => cases hx
  | cons head _ ih =>
      rcases mem_cons.mp hx with rfl | hx
      · exact ⟨_, mem_cons_self, head⟩
      · obtain ⟨y, hy, related⟩ := ih hx
        exact ⟨y, mem_cons_of_mem _ hy, related⟩

theorem Forall₂.exists_of_mem_right {R : α → β → Prop} {xs : List α} {ys : List β}
    (h : Forall₂ R xs ys) {y : β} (hy : y ∈ ys) : ∃ x ∈ xs, R x y :=
  h.flip.exists_of_mem_left hy

/-- Where each element on the right is related to one on the left only, repetitions stay away. -/
theorem Forall₂.nodup_right {R : α → β → Prop} {xs : List α} {ys : List β} (h : Forall₂ R xs ys)
    (unique : ∀ x x' y, R x y → R x' y → x = x') (nodup : xs.Nodup) : ys.Nodup := by
  induction h with
  | nil => exact nodup_nil
  | cons head tail ih =>
      obtain ⟨absent, rest⟩ := nodup_cons.mp nodup
      refine nodup_cons.mpr ⟨fun again => absent ?_, ih rest⟩
      obtain ⟨x, hx, related⟩ := tail.exists_of_mem_right again
      rwa [unique _ _ _ head related]

/-- Replacing one element by a related one leaves the lists related. -/
theorem forall₂_set {R : α → α → Prop} {xs : List α} {i : Nat} {x y : α} (h : xs[i]? = some x)
    (related : R x y) (refl : ∀ z, R z z) : Forall₂ R xs (xs.set i y) := by
  obtain ⟨before, after, split, set⟩ := split_at_slot h
  rw [set, split]
  exact rel_append (forall₂_same.mpr fun z _ => refl z)
    (.cons related (forall₂_same.mpr fun z _ => refl z))

/-- Related elements are found at the same index. -/
theorem Forall₂.and_getElem? {R : α → β → Prop} {xs : List α} {ys : List β} (h : Forall₂ R xs ys) :
    Forall₂ (fun x y => R x y ∧ ∃ i : Nat, xs[i]? = some x ∧ ys[i]? = some y) xs ys :=
  forall₂_iff_get.mpr ⟨h.length_eq, fun i hx hy =>
    ⟨h.get hx hy, i, getElem?_eq_getElem hx, getElem?_eq_getElem hy⟩⟩

/-- Two lists have the same images when related elements have. -/
theorem Forall₂.map_eq {γ : Type} {R : α → β → Prop} {xs : List α} {ys : List β} {f : α → γ}
    {g : β → γ} (h : Forall₂ R xs ys) (same : ∀ x y, R x y → f x = g y) : xs.map f = ys.map g := by
  rw [← forall₂_eq_eq_eq, forall₂_map_left_iff, forall₂_map_right_iff]
  exact h.imp same

/-- A list of optional results is there when each result is. -/
theorem mapM_eq_some_iff {f : α → Option β} {xs : List α} {ys : List β} :
    xs.mapM f = some ys ↔ Forall₂ (fun x y => f x = some y) xs ys := by
  induction xs generalizing ys with
  | nil => simp [eq_comm]
  | cons x xs ih =>
      rw [mapM_cons, forall₂_cons_left_iff]
      simp only [← ih, Option.bind_eq_bind, Option.bind_eq_some_iff]
      constructor
      · rintro ⟨y, hy, zs, hzs, last⟩
        cases last
        exact ⟨y, zs, hy, hzs, rfl⟩
      · rintro ⟨y, zs, hy, hzs, rfl⟩
        exact ⟨y, hy, zs, hzs, rfl⟩

theorem exists_mapM_eq_some {f : α → Option β} {xs : List α} (h : ∀ x ∈ xs, ∃ y, f x = some y) :
    ∃ ys, xs.mapM f = some ys := by
  induction xs with
  | nil => exact ⟨[], rfl⟩
  | cons x xs ih =>
      obtain ⟨y, hy⟩ := h x mem_cons_self
      obtain ⟨ys, hys⟩ := ih fun x' hx' => h x' (mem_cons_of_mem _ hx')
      exact ⟨y :: ys, by rw [mapM_cons, hy, hys]; rfl⟩

theorem findSome?_flatMap {γ : Type} (f : β → Option γ) (g : α → List β) (xs : List α) :
    (xs.flatMap g).findSome? f = xs.findSome? fun x => (g x).findSome? f := by
  induction xs with
  | nil => rfl
  | cons x xs ih =>
      rw [flatMap_cons, findSome?_append, ih, findSome?_cons]
      cases (g x).findSome? f <;> rfl

theorem findSome?_congr {f g : α → Option β} {xs : List α} (h : ∀ x ∈ xs, f x = g x) :
    xs.findSome? f = xs.findSome? g := by
  induction xs with
  | nil => rfl
  | cons x xs ih =>
      rw [findSome?_cons, findSome?_cons, h x mem_cons_self, ih fun y hy =>
        h y (mem_cons_of_mem x hy)]

/-- Checks in a row succeed when each one does. -/
theorem forM_eq_ok_iff {ε : Type} (f : α → Except ε Unit) (xs : List α) :
    xs.forM f = .ok () ↔ ∀ x ∈ xs, f x = .ok () := by
  induction xs with
  | nil => simp [pure, Except.pure]
  | cons x xs ih =>
      rw [forall_mem_cons, ← ih]
      change (f x >>= fun _ => xs.forM f) = .ok () ↔ _
      rw [Except.bind_eq_ok_iff]
      constructor
      · rintro ⟨_, head, tail⟩
        exact ⟨head, tail⟩
      · rintro ⟨head, tail⟩
        exact ⟨(), head, tail⟩

/-! ### First occurrences -/

section FirstOccurrences

variable [BEq α] [LawfulBEq α]

/-- The list `ys` has the elements of `xs` once each, in the order in which they first come up. -/
structure FirstOccurrences (xs ys : List α) : Prop where
  nodup : ys.Nodup
  mem_iff : ∀ a, a ∈ ys ↔ a ∈ xs
  ordered : ys.Pairwise fun a b => xs.idxOf a < xs.idxOf b

/-- Elements that a filter keeps stay in their order. -/
theorem idxOf_lt_of_filter {keep : α → Bool} {xs : List α} {a b : α} (ha : keep a = true)
    (hb : keep b = true) (before : (xs.filter keep).idxOf a < (xs.filter keep).idxOf b) :
    xs.idxOf a < xs.idxOf b := by
  induction xs with
  | nil => simp at before
  | cons x xs ih =>
      by_cases kept : keep x = true
      · rw [filter_cons_of_pos kept, idxOf_cons, idxOf_cons] at before
        rw [idxOf_cons, idxOf_cons]
        cases atA : x == a <;> cases atB : x == b <;> simp_all
      · have notA : x ≠ a := fun same => kept (same ▸ ha)
        have notB : x ≠ b := fun same => kept (same ▸ hb)
        rw [filter_cons_of_neg kept] at before
        rw [idxOf_cons_ne _ notA, idxOf_cons_ne _ notB]
        exact Nat.succ_lt_succ (ih before)

theorem firstOccurrences_eraseDups (xs : List α) : FirstOccurrences xs xs.eraseDups := by
  generalize size : xs.length = n
  induction n using Nat.strongRecOn generalizing xs with
  | ind n ih =>
      cases xs with
      | nil => exact ⟨nodup_nil, fun a => Iff.rfl, .nil⟩
      | cons x xs =>
          have shorter : (xs.filter fun b => !b == x).length < n := by
            rw [← size, length_cons]
            exact Nat.lt_succ_of_le (length_filter_le ..)
          obtain ⟨nodup, mem_iff, ordered⟩ := ih _ shorter _ rfl
          have later : ∀ b ∈ (xs.filter fun b => !b == x).eraseDups, (!b == x) = true :=
            fun b hb => (mem_filter.mp ((mem_iff b).mp hb)).2
          have other : ∀ b ∈ (xs.filter fun b => !b == x).eraseDups, x ≠ b := by
            rintro b hb rfl
            simpa using later _ hb
          rw [eraseDups_cons]
          refine ⟨nodup_cons.mpr ⟨fun hx => other x hx rfl, nodup⟩, fun a => ?_, .cons ?_ ?_⟩
          · rw [← eraseDups_cons, mem_eraseDups]
          · intro b hb
            rw [idxOf_cons_self, idxOf_cons_ne _ (other b hb)]
            exact Nat.succ_pos _
          · refine ordered.imp_of_mem fun {a b} ha hb before => ?_
            rw [idxOf_cons_ne _ (other a ha), idxOf_cons_ne _ (other b hb)]
            exact Nat.succ_lt_succ (idxOf_lt_of_filter (later a ha) (later b hb) before)

end FirstOccurrences
end List
