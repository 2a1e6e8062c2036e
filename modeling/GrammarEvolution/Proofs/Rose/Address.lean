import GrammarEvolution.Proofs.Basic
import GrammarEvolution.Rose

/-!
Reading and replacing subtrees by address.

* `mem_subtrees_iff`, `mem_preorder_iff`: the subtrees of a tree are what its addresses lead to, and
  the labels of the walk are the labels of these.
* `subtrees_addresses`, `pairwise_addresses`: the walk follows the addresses, and these ascend.
* `exists_subtreeAt_length`: a tree is as high as its longest address is long.
* `height_replaceAt_le`: a replacement is no higher than the tree was, or than what it puts in
  reaches from its address.
* `preorder_replaceAt`: a replacement exchanges one block of the walk and leaves the rest in place.
* `preorder_exchange_perm`: an exchange between two trees moves labels and loses none.
* `patch_of_unique`: a fold that rewrites the children of one label and renames everything else is a
  renaming followed by a replacement, when the label stands at one address only.
-/

namespace GrammarEvolution

namespace Rose

variable {α β : Type}

/-! ### Reading -/

@[simp] theorem subtreeAt_nil (t : Rose α) : t.subtreeAt [] = some t := rfl

@[simp] theorem subtreeAt_cons (t : Rose α) (i : Nat) (p : List Nat) :
    t.subtreeAt (i :: p) = t.children[i]?.bind fun c => c.subtreeAt p := rfl

theorem subtreeAt_cons_eq_some_iff {t u : Rose α} {i : Nat} {p : List Nat} :
    t.subtreeAt (i :: p) = some u ↔ ∃ c, t.children[i]? = some c ∧ c.subtreeAt p = some u := by
  simp [Option.bind_eq_some_iff]

/-- An address is followed step by step. -/
theorem subtreeAt_append (t : Rose α) (p q : List Nat) :
    t.subtreeAt (p ++ q) = (t.subtreeAt p).bind fun u => u.subtreeAt q := by
  induction p generalizing t with
  | nil => rfl
  | cons i p ih =>
      rw [List.cons_append, subtreeAt_cons, subtreeAt_cons]
      cases t.children[i]? with
      | none => rfl
      | some c => exact ih c

theorem subtreeAt_concat_eq_some_iff {t u : Rose α} {p : List Nat} {i : Nat} :
    t.subtreeAt (p ++ [i]) = some u ↔
      ∃ v, t.subtreeAt p = some v ∧ v.children[i]? = some u := by
  rw [subtreeAt_append, Option.bind_eq_some_iff]
  simp

@[simp] theorem label_map (f : α → β) (t : Rose α) : (t.map f).label = f t.label := by
  cases t with
  | node a cs => rw [map_node, label_node, label_node]

@[simp] theorem children_map (f : α → β) (t : Rose α) :
    (t.map f).children = t.children.map (map f) := by
  cases t with
  | node a cs => rw [map_node, children_node, children_node]

/-- Renaming does not move subtrees. -/
theorem subtreeAt_map (f : α → β) (t : Rose α) (p : List Nat) :
    (t.map f).subtreeAt p = (t.subtreeAt p).map (map f) := by
  induction p generalizing t with
  | nil => rfl
  | cons i p ih =>
      rw [subtreeAt_cons, subtreeAt_cons, children_map, List.getElem?_map]
      cases t.children[i]? with
      | none => rfl
      | some c => exact ih c

/-! ### Walks -/

/-- The subtrees of a tree are what its addresses lead to. -/
theorem mem_subtrees_iff {t u : Rose α} : u ∈ t.subtrees ↔ ∃ p, t.subtreeAt p = some u := by
  induction t using Rose.induction generalizing u with
  | step a cs ih =>
      rw [subtrees_node, List.mem_cons, List.mem_flatMap]
      constructor
      · rintro (rfl | ⟨c, hc, hu⟩)
        · exact ⟨[], rfl⟩
        · obtain ⟨p, hp⟩ := (ih c hc).mp hu
          obtain ⟨i, hi⟩ := List.getElem?_of_mem hc
          exact ⟨i :: p, subtreeAt_cons_eq_some_iff.mpr ⟨c, hi, hp⟩⟩
      · rintro ⟨p, hp⟩
        cases p with
        | nil => exact Or.inl (Option.some.inj hp).symm
        | cons i p =>
            obtain ⟨c, hi, hc⟩ := subtreeAt_cons_eq_some_iff.mp hp
            have mem : c ∈ cs := List.mem_of_getElem? hi
            exact Or.inr ⟨c, mem, (ih c mem).mpr ⟨p, hc⟩⟩

theorem preorder_eq_map_label (t : Rose α) : t.preorder = t.subtrees.map label := by
  induction t using Rose.induction with
  | step a cs ih =>
      rw [preorder_node, subtrees_node, List.map_cons, label_node, List.map_flatMap]
      exact congrArg (a :: ·) (List.flatMap_congr ih)

theorem preorder_map (f : α → β) (t : Rose α) : (t.map f).preorder = t.preorder.map f := by
  induction t using Rose.induction with
  | step a cs ih =>
      rw [map_node, preorder_node, preorder_node, List.map_cons, List.map_flatMap, List.flatMap_map]
      exact congrArg (f a :: ·) (List.flatMap_congr ih)

/-- The labels of the walk are those that stand at some address. -/
theorem mem_preorder_iff {t : Rose α} {a : α} :
    a ∈ t.preorder ↔ ∃ p u, t.subtreeAt p = some u ∧ u.label = a := by
  rw [preorder_eq_map_label, List.mem_map]
  constructor
  · rintro ⟨u, hu, rfl⟩
    obtain ⟨p, hp⟩ := mem_subtrees_iff.mp hu
    exact ⟨p, u, hp, rfl⟩
  · rintro ⟨p, u, hp, rfl⟩
    exact ⟨u, mem_subtrees_iff.mpr ⟨p, hp⟩, rfl⟩

/-! ### The addresses of a walk -/

/-- The addresses of a tree, in the order of the walk. -/
def addresses : Rose α → List (List Nat) :=
  fold fun _ cs => [] :: cs.zipIdx.flatMap fun c => c.1.2.map (c.2 :: ·)

theorem addresses_node (a : α) (cs : List (Rose α)) :
    (node a cs).addresses = [] :: cs.zipIdx.flatMap fun c => c.1.addresses.map (c.2 :: ·) := by
  simp [addresses, fold_node, List.zipIdx_map, List.flatMap_map]

/-- Each address leads to the subtree that the walk meets there. -/
theorem subtrees_addresses (t : Rose α) :
    List.Forall₂ (fun p u => t.subtreeAt p = some u) t.addresses t.subtrees := by
  induction t using Rose.induction with
  | step a cs ih =>
      have numbered : List.Forall₂ (fun c d => c.1 = d ∧ cs[c.2]? = some d) cs.zipIdx cs :=
        List.forall₂_iff_get.mpr ⟨List.length_zipIdx, fun i _ inside => by simp [inside]⟩
      rw [addresses_node, subtrees_node]
      refine .cons rfl (List.rel_flatMap numbered ?_)
      rintro ⟨c, i⟩ _ ⟨rfl, slot⟩
      rw [List.forall₂_map_left_iff]
      refine (ih c (List.mem_of_getElem? slot)).imp fun p u hp => ?_
      exact subtreeAt_cons_eq_some_iff.mpr ⟨c, slot, hp⟩

/-- The walk meets the addresses in the order of their first difference, and an address before
those that go on from it. -/
theorem pairwise_addresses (t : Rose α) : t.addresses.Pairwise (· < ·) := by
  induction t using Rose.induction with
  | step a cs ih =>
      rw [addresses_node, List.pairwise_cons, List.pairwise_flatMap]
      refine ⟨fun p hp => ?_, fun c hc => ?_, ?_⟩
      · obtain ⟨c, -, hp⟩ := List.mem_flatMap.mp hp
        obtain ⟨q, -, rfl⟩ := List.mem_map.mp hp
        exact List.nil_lt_cons c.2 q
      · rw [List.pairwise_map]
        have inner := ih c.1 (List.mem_of_getElem? (List.mem_zipIdx_iff_getElem?.mp hc))
        exact inner.imp fun before => List.cons_lt_cons_iff.mpr (.inr ⟨rfl, before⟩)
      · have numbered : cs.zipIdx.Pairwise fun c d => c.2 < d.2 := by
          rw [← List.pairwise_map, List.zipIdx_map_snd]
          exact List.pairwise_lt_range'
        refine numbered.imp fun before p hp q hq => ?_
        obtain ⟨p, -, rfl⟩ := List.mem_map.mp hp
        obtain ⟨q, -, rfl⟩ := List.mem_map.mp hq
        exact List.cons_lt_cons_iff.mpr (.inl before)

/-! ### Heights -/

/-- A node is as high as its highest child, and one more. -/
theorem height_node_le_iff {a : α} {cs : List (Rose α)} {n : Nat} :
    (node a cs).height ≤ n ↔ ∀ c ∈ cs, c.height + 1 ≤ n := by
  rw [height_node, List.foldl_max_le_iff]
  simp

/-- Above at least one child there is one level more than below. -/
theorem height_node_of_ne_nil {a : α} {cs : List (Rose α)} (h : cs ≠ []) :
    (node a cs).height = (cs.map height).foldl max 0 + 1 := by
  cases cs with
  | nil => exact absurd rfl h
  | cons c cs =>
      rw [height_node, List.map_cons, List.foldl_cons, List.map_cons, List.foldl_cons,
        Nat.zero_max, Nat.zero_max, ← List.foldl_max_map_succ, List.map_map]
      rfl

theorem height_lt_of_mem {t c : Rose α} (h : c ∈ t.children) : c.height < t.height := by
  cases t with
  | node a cs => exact height_node_le_iff.mp (Nat.le_refl _) c h

theorem add_height_le {t u : Rose α} {p : List Nat} (h : t.subtreeAt p = some u) :
    p.length + u.height ≤ t.height := by
  induction p generalizing t with
  | nil =>
      cases h
      simp
  | cons i p ih =>
      obtain ⟨c, hi, hc⟩ := subtreeAt_cons_eq_some_iff.mp h
      have below := ih hc
      have step := height_lt_of_mem (List.mem_of_getElem? hi)
      rw [List.length_cons]
      omega

/-- Some address is as long as the tree is high. -/
theorem exists_subtreeAt_length (t : Rose α) :
    ∃ p u, t.subtreeAt p = some u ∧ p.length = t.height := by
  induction t using Rose.induction with
  | step a cs ih =>
      by_cases leaf : (node a cs).height = 0
      · exact ⟨[], _, rfl, leaf.symm⟩
      -- A node that is not flat has a child that is only one level lower.
      · obtain ⟨c, hc, high⟩ : ∃ c ∈ cs, (node a cs).height ≤ c.height + 1 := by
          by_contra low
          push Not at low
          have flat : (node a cs).height ≤ (node a cs).height - 1 :=
            height_node_le_iff.mpr fun c hc => by have := low c hc; omega
          omega
        obtain ⟨p, u, hp, length⟩ := ih c hc
        obtain ⟨i, slot⟩ := List.getElem?_of_mem hc
        refine ⟨i :: p, u, subtreeAt_cons_eq_some_iff.mpr ⟨c, slot, hp⟩, ?_⟩
        have := height_lt_of_mem (t := node a cs) hc
        rw [List.length_cons]
        omega

theorem height_map (f : α → β) (t : Rose α) : (t.map f).height = t.height := by
  induction t using Rose.induction with
  | step a cs ih =>
      rw [map_node, height_node, height_node, List.map_map]
      congr 1
      exact List.map_congr_left fun c hc => by simp [ih c hc]

/-! ### Replacing -/

@[simp] theorem replaceAt_nil (t r : Rose α) : t.replaceAt r [] = r := rfl

/-- A step of an address that stays inside replaces one child. -/
theorem replaceAt_cons {t c : Rose α} {i : Nat} (h : t.children[i]? = some c) (r : Rose α)
    (p : List Nat) :
    t.replaceAt r (i :: p) = node t.label (t.children.set i (c.replaceAt r p)) := by
  rw [replaceAt]
  congr 1
  apply List.ext_getElem?
  intro j
  rw [List.getElem?_modify, List.getElem?_set]
  by_cases hij : i = j
  · subst hij
    obtain ⟨inside, rfl⟩ := List.getElem?_eq_some_iff.mp h
    simp [inside]
  · simp [hij]

/-- A replacement below a replacement is a replacement. -/
theorem replaceAt_append (t u r : Rose α) (p q : List Nat) :
    (t.replaceAt u p).replaceAt r (p ++ q) = t.replaceAt (u.replaceAt r q) p := by
  induction p generalizing t with
  | nil => rfl
  | cons i p ih =>
      rw [List.cons_append, replaceAt, replaceAt, replaceAt, label_node, children_node,
        List.modify_modify_eq]
      simp only [Function.comp_def, ih]

/-- Nothing changes when a part is replaced by itself. -/
theorem replaceAt_subtreeAt {t u : Rose α} {p : List Nat} (h : t.subtreeAt p = some u) :
    t.replaceAt u p = t := by
  induction p generalizing t with
  | nil =>
      cases h
      rfl
  | cons i p ih =>
      obtain ⟨c, hi, hc⟩ := subtreeAt_cons_eq_some_iff.mp h
      obtain ⟨inside, rfl⟩ := List.getElem?_eq_some_iff.mp hi
      rw [replaceAt_cons hi, ih hc, List.set_getElem_self]
      cases t
      rfl

/-- Only a replacement of the whole touches the label at the top. -/
theorem label_replaceAt {t : Rose α} {p : List Nat} (h : p ≠ []) (r : Rose α) :
    (t.replaceAt r p).label = t.label := by
  cases p with
  | nil => exact absurd rfl h
  | cons i p => rfl

theorem height_replaceAt_le {t u : Rose α} {p : List Nat} (h : t.subtreeAt p = some u)
    (r : Rose α) : (t.replaceAt r p).height ≤ max t.height (p.length + r.height) := by
  induction p generalizing t with
  | nil =>
      rw [replaceAt_nil, List.length_nil]
      omega
  | cons i p ih =>
      obtain ⟨c, hi, hc⟩ := subtreeAt_cons_eq_some_iff.mp h
      rw [replaceAt_cons hi, height_node_le_iff]
      intro d hd
      rw [List.length_cons]
      rcases List.mem_or_eq_of_mem_set hd with hd | rfl
      · have := height_lt_of_mem hd
        omega
      · have below := ih hc
        have step := height_lt_of_mem (List.mem_of_getElem? hi)
        omega

/-- A replacement exchanges one block of the walk and leaves the rest in place. -/
theorem preorder_replaceAt {t u : Rose α} {p : List Nat} (h : t.subtreeAt p = some u) :
    ∃ before after, t.preorder = before ++ u.preorder ++ after ∧
      ∀ r, (t.replaceAt r p).preorder = before ++ r.preorder ++ after := by
  induction p generalizing t with
  | nil =>
      cases h
      exact ⟨[], [], by simp, by simp⟩
  | cons i p ih =>
      obtain ⟨c, hi, hc⟩ := subtreeAt_cons_eq_some_iff.mp h
      obtain ⟨before, after, walk, replaced⟩ := ih hc
      cases t with
      | node a cs =>
          obtain ⟨left, right, split, set⟩ := List.split_at_slot hi
          refine ⟨a :: left.flatMap preorder ++ before, after ++ right.flatMap preorder, ?_,
            fun r => ?_⟩
          · rw [children_node] at split
            simp [preorder_node, split, walk]
          · rw [replaceAt_cons hi, label_node, preorder_node, set]
            simp [replaced r]

/-- Two trees that exchange a subtree exchange its labels, and keep all of them between them. -/
theorem preorder_exchange_perm {t u v w : Rose α} {p q : List Nat}
    (hv : t.subtreeAt p = some v) (hw : u.subtreeAt q = some w) :
    ((t.replaceAt w p).preorder ++ (u.replaceAt v q).preorder).Perm (t.preorder ++ u.preorder) := by
  classical
  obtain ⟨before, after, walk, replaced⟩ := preorder_replaceAt hv
  obtain ⟨before', after', walk', replaced'⟩ := preorder_replaceAt hw
  rw [walk, walk', replaced, replaced', List.perm_iff_count]
  intro a
  simp only [List.count_append]
  omega

/-! ### Rewriting one label -/

section Patch

variable [DecidableEq α] (f : α → β) (owner : α) (i : Nat) (r : Rose β)

/-- Renames every label, and puts `r` into child slot `i` wherever the label is `owner`. -/
def patch : Rose α → Rose β :=
  fold fun a cs => node (f a) (if a = owner then (cs.map (·.2)).set i r else cs.map (·.2))

theorem patch_node (a : α) (cs : List (Rose α)) :
    patch f owner i r (node a cs) =
      node (f a) (if a = owner then (cs.map (patch f owner i r)).set i r
        else cs.map (patch f owner i r)) := by
  simp [patch, fold_node, Function.comp_def]

/-- Without the label, nothing but a renaming takes place. -/
theorem patch_of_absent {t : Rose α}
    (absent : ∀ p u, t.subtreeAt p = some u → u.label ≠ owner) :
    patch f owner i r t = t.map f := by
  induction t using Rose.induction with
  | step a cs ih =>
      have top : a ≠ owner := absent [] _ rfl
      rw [patch_node, map_node, if_neg top]
      congr 1
      refine List.map_congr_left fun c hc => ih c hc fun p u hu => ?_
      obtain ⟨j, hj⟩ := List.getElem?_of_mem hc
      exact absent (j :: p) u (subtreeAt_cons_eq_some_iff.mpr ⟨c, hj, hu⟩)

/-- With the label at one address only, a replacement takes place there. -/
theorem patch_of_unique {t u : Rose α} {p : List Nat} (there : t.subtreeAt p = some u)
    (top : u.label = owner) (inside : i < u.children.length)
    (unique : ∀ q v, t.subtreeAt q = some v → v.label = owner → q = p) :
    patch f owner i r t = (t.map f).replaceAt r (p ++ [i]) := by
  induction p generalizing t with
  | nil =>
      obtain rfl : t = u := Option.some.inj there
      cases t with
      | node a cs =>
          rw [children_node] at inside
          have slot : ((node a cs).map f).children[i]? = some (cs[i].map f) := by
            rw [children_map, List.getElem?_map, children_node, List.getElem?_eq_getElem inside]
            rfl
          rw [List.nil_append, replaceAt_cons slot, patch_node, label_map, children_map,
            if_pos (show a = owner from top)]
          congr 2
          refine List.map_congr_left fun c hc => patch_of_absent f owner i r fun q v hv hl => ?_
          obtain ⟨j, hj⟩ := List.getElem?_of_mem hc
          have := unique (j :: q) v (subtreeAt_cons_eq_some_iff.mpr ⟨c, hj, hv⟩) hl
          exact absurd this (by simp)
  | cons j p ih =>
      obtain ⟨c, hj, hc⟩ := subtreeAt_cons_eq_some_iff.mp there
      cases t with
      | node a cs =>
          have notTop : a ≠ owner := fun h => absurd (unique [] _ rfl h) (by simp)
          have slot : ((node a cs).map f).children[j]? = some (c.map f) := by
            rw [children_map, List.getElem?_map, hj]
            rfl
          have below := ih hc fun q v hv hl =>
            (List.cons.inj (unique (j :: q) v
              (subtreeAt_cons_eq_some_iff.mpr ⟨c, hj, hv⟩) hl)).2
          rw [List.cons_append, replaceAt_cons slot, patch_node, if_neg notTop, label_map,
            children_map, children_node, ← below]
          rw [children_node] at hj
          congr 1
          apply List.ext_getElem?
          intro k
          rw [List.getElem?_set, List.getElem?_map, List.getElem?_map]
          by_cases hjk : j = k
          · subst hjk
            obtain ⟨bound, rfl⟩ := List.getElem?_eq_some_iff.mp hj
            simp [bound]
          · rw [if_neg hjk]
            cases hk : cs[k]? with
            | none => rfl
            | some d =>
                -- A sibling's address differs from `j :: p` in its first step.
                refine congrArg some (patch_of_absent f owner i r fun q v hv hl => hjk ?_)
                have := unique (k :: q) v (subtreeAt_cons_eq_some_iff.mpr ⟨d, hk, hv⟩) hl
                exact (List.cons.inj this).1.symm

end Patch

end Rose

end GrammarEvolution
