import GrammarEvolution.Operator.Basic
import GrammarEvolution.Proofs.Rose.Address
import Mathlib.Data.List.Induction
import Mathlib.Data.List.Nodup

/-!
Nodes of a well-formed tree and their addresses.

`StandsAt t n p` says that the address `p` leads from the root to node `n`.

* `mem_preorder_iff_standsAt`: the nodes that the root reaches are those that stand somewhere.
* `WellFormed.wellFounded_children`: what holds of a node whenever it holds of its children holds of
  every node.
* `WellFormed.depth_eq`, `WellFormed.position_eq_ok_iff`: looking up from a node agrees with its
  address and with the lists it is on.
* `WellFormed.standsAt_unique`: a node stands at one address at most.
-/

namespace GrammarEvolution

namespace Tree

variable {t : Tree} {n m i : Nat} {p q : List Nat}

/-! ### Outlines -/

@[simp] theorem label_outline (t : Tree) (n : Nat) : (t.outline n).label = n := by
  rw [outline, Rose.label_node]

/-- Where every link down leads to a later node of the table, the outline follows all of them. -/
theorem outline_of_bounds (bounds : ∀ c ∈ t.children n, n < c ∧ c < t.nodes.size) :
    t.outline n = .node n ((t.children n).map t.outline) := by
  rw [outline]
  congr 1
  exact List.filterMap_eq_map_iff_forall_eq_some.mpr fun c hc => dif_pos (bounds c hc)

/-- Every part of an outline is an outline. -/
theorem subtreeAt_outline {u : Rose Nat} (h : (t.outline n).subtreeAt p = some u) :
    u = t.outline u.label := by
  induction p generalizing n with
  | nil =>
      cases h
      rw [label_outline]
  | cons i p ih =>
      obtain ⟨c, hi, hc⟩ := Rose.subtreeAt_cons_eq_some_iff.mp h
      have mem := List.mem_of_getElem? hi
      rw [outline, Rose.children_node, List.mem_filterMap] at mem
      obtain ⟨k, -, hk⟩ := mem
      split at hk
      · cases hk
        exact ih hc
      · cases hk

/-! ### Shapes -/

@[simp] theorem label_shapeAt (t : Tree) (n : Nat) : (t.shapeAt n).label = t.symbol n := by
  rw [shapeAt, Rose.label_map, label_outline]

theorem shapeAt_of_bounds (bounds : ∀ c ∈ t.children n, n < c ∧ c < t.nodes.size) :
    t.shapeAt n = .node (t.symbol n) ((t.children n).map t.shapeAt) := by
  rw [shapeAt, outline_of_bounds bounds, Rose.map_node, List.map_map]
  rfl

theorem height_shapeAt (t : Tree) (n : Nat) : (t.shapeAt n).height = t.heightAt n :=
  Rose.height_map _ _

theorem height_shape (t : Tree) : t.shape.height = t.height :=
  t.height_shapeAt t.root

theorem preorder_shape (t : Tree) : t.shape.preorder = t.preorder.map t.symbol :=
  Rose.preorder_map _ _

/-! ### Addresses -/

/-- The address `p` leads from the root to node `n`. -/
def StandsAt (t : Tree) (n : Nat) (p : List Nat) : Prop :=
  (t.outline t.root).subtreeAt p = some (t.outline n)

instance : Decidable (t.StandsAt n p) :=
  inferInstanceAs (Decidable (_ = _))

theorem outline_injective (h : t.outline n = t.outline m) : n = m := by
  rw [← label_outline t n, h, label_outline]

/-- The nodes that the root reaches are those that stand somewhere. -/
theorem mem_preorder_iff_standsAt : n ∈ t.preorder ↔ ∃ p, t.StandsAt n p := by
  rw [preorder, Rose.mem_preorder_iff]
  constructor
  · rintro ⟨p, u, hu, rfl⟩
    exact ⟨p, hu.trans (congrArg some (subtreeAt_outline hu))⟩
  · rintro ⟨p, hp⟩
    exact ⟨p, _, hp, label_outline t n⟩

theorem standsAt_nil_iff : t.StandsAt n [] ↔ n = t.root :=
  ⟨fun h => (outline_injective (Option.some.inj h)).symm, fun h => h ▸ rfl⟩

/-- Where a node stands, its shape is a part of the shape of the tree. -/
theorem StandsAt.subtreeAt_shape (h : t.StandsAt n p) :
    t.shape.subtreeAt p = some (t.shapeAt n) := by
  rw [shape, shapeAt, Rose.subtreeAt_map, show (t.outline t.root).subtreeAt p = _ from h]
  rfl

namespace WellFormed

variable (h : t.WellFormed)

include h

theorem outline_eq (n : Nat) : t.outline n = .node n ((t.children n).map t.outline) :=
  outline_of_bounds (h.child_bounds n)

theorem shapeAt_eq (n : Nat) : t.shapeAt n = .node (t.symbol n) ((t.children n).map t.shapeAt) :=
  shapeAt_of_bounds (h.child_bounds n)

/-- No walk goes down forever: every child has fewer nodes behind it in the table. -/
theorem wellFounded_children : WellFounded fun c n => c ∈ t.children n :=
  Subrelation.wf (fun {c n} hc => by
    have := h.child_bounds n c hc
    show t.nodes.size - c < t.nodes.size - n
    omega) (measure fun n => t.nodes.size - n).wf

/-- The labels below the top of a shape are the symbols of the children. -/
theorem labels_shapeAt (n : Nat) :
    (t.shapeAt n).children.map Rose.label = t.childSymbols n := by
  rw [h.shapeAt_eq, Rose.children_node, List.map_map]
  exact List.map_congr_left fun c _ => label_shapeAt t c

/-- One step further is one child further. -/
theorem standsAt_concat_iff :
    t.StandsAt n (p ++ [i]) ↔ ∃ m, t.StandsAt m p ∧ (t.children m)[i]? = some n := by
  rw [StandsAt, Rose.subtreeAt_concat_eq_some_iff]
  constructor
  · rintro ⟨v, hv, hi⟩
    have outlined := subtreeAt_outline hv
    refine ⟨v.label, hv.trans (congrArg some outlined), ?_⟩
    rw [outlined, h.outline_eq, Rose.children_node, List.getElem?_map] at hi
    obtain ⟨c, hc, same⟩ := Option.map_eq_some_iff.mp hi
    rw [hc, outline_injective same]
  · rintro ⟨m, hm, hi⟩
    refine ⟨t.outline m, hm, ?_⟩
    rw [h.outline_eq, Rose.children_node, List.getElem?_map, hi]
    rfl

theorem parent_of_child (hi : (t.children m)[i]? = some n) : t.parent n = some m :=
  h.child_parent m n (List.mem_of_getElem? hi)

theorem lt_of_child (hi : (t.children m)[i]? = some n) : m < n ∧ n < t.nodes.size :=
  h.child_bounds m n (List.mem_of_getElem? hi)

theorem lt_size_of_standsAt (hn : t.StandsAt n p) : n < t.nodes.size := by
  cases p using List.reverseRecOn with
  | nil =>
      rw [standsAt_nil_iff.mp hn]
      exact h.nonempty
  | append_singleton p i =>
      obtain ⟨m, -, hi⟩ := h.standsAt_concat_iff.mp hn
      exact (h.lt_of_child hi).2

theorem children_nodup_at (m : Nat) : (t.children m).Nodup := by
  by_cases inside : m < t.nodes.size
  · have mem : t.node m ∈ t.nodes.toList := by
      rw [node, Array.getD_eq_getD_getElem?, Array.getElem?_eq_getElem inside, Option.getD_some]
      exact Array.getElem_mem_toList inside
    exact (List.nodup_flatMap.mp h.children_nodup).1 _ mem
  · have outside : t.node m = ⟨0, none, []⟩ := by
      rw [node, Array.getD_eq_getD_getElem?, Array.getElem?_eq_none (Nat.le_of_not_lt inside)]
      rfl
    simp [children, outside]

/-- Links up count the steps of the address. -/
theorem depth_eq (hn : t.StandsAt n p) : t.depth n = p.length := by
  induction p using List.reverseRecOn generalizing n with
  | nil =>
      rw [standsAt_nil_iff.mp hn, depth, h.root_parent]
      rfl
  | append_singleton p i ih =>
      obtain ⟨m, hm, hi⟩ := h.standsAt_concat_iff.mp hn
      rw [depth, h.parent_of_child hi]
      simp [(h.lt_of_child hi).1, ih hm]

/-- A child is found below its owner, and where it is. -/
theorem position_eq (hi : (t.children m)[i]? = some n) : t.position n = .ok (m, i) := by
  have index : (t.children m).idxOf? n = some i := by
    obtain ⟨inside, here⟩ := List.getElem?_eq_some_iff.mp hi
    refine List.findIdx?_eq_some_iff_getElem.mpr ⟨inside, by simp [here], fun j hj => ?_⟩
    have differ : (t.children m)[j] = (t.children m)[i] ↔ j = i :=
      (h.children_nodup_at m).getElem_inj_iff
    rw [here] at differ
    simp [differ, Nat.ne_of_lt hj]
  rw [position, h.parent_of_child hi]
  simp [index, pure, Except.pure]

/-- A node has the positions at which it is listed, and no other. -/
theorem position_eq_ok_iff : t.position n = .ok (m, i) ↔ (t.children m)[i]? = some n := by
  refine ⟨fun found => ?_, h.position_eq⟩
  rw [position] at found
  cases up : t.parent n with
  | none => simp [up, throw, throwThe, MonadExceptOf.throw] at found
  | some p =>
      cases index : (t.children p).idxOf? n with
      | none => simp [up, index, throw, throwThe, MonadExceptOf.throw] at found
      | some j =>
          simp only [up, index, pure, Except.pure, Except.ok.injEq, Prod.mk.injEq] at found
          obtain ⟨rfl, rfl⟩ := found
          obtain ⟨inside, here, -⟩ := List.findIdx?_eq_some_iff_getElem.mp index
          rw [List.getElem?_eq_getElem inside]
          exact congrArg some (eq_of_beq here)

theorem lt_of_position (found : t.position n = .ok (m, i)) : m < n ∧ n < t.nodes.size :=
  h.lt_of_child (h.position_eq_ok_iff.mp found)

/-- A node other than the root is reached through its position. -/
theorem exists_position (hn : t.StandsAt n p) (notRoot : n ≠ t.root) :
    ∃ m i q, p = q ++ [i] ∧ t.StandsAt m q ∧ (t.children m)[i]? = some n ∧
      t.position n = .ok (m, i) := by
  cases p using List.reverseRecOn with
  | nil => exact absurd (standsAt_nil_iff.mp hn) notRoot
  | append_singleton q i =>
      obtain ⟨m, hm, hi⟩ := h.standsAt_concat_iff.mp hn
      exact ⟨m, i, q, rfl, hm, hi, h.position_eq hi⟩

/-- A node stands at one address at most. -/
theorem standsAt_unique (hp : t.StandsAt n p) (hq : t.StandsAt n q) : p = q := by
  induction p using List.reverseRecOn generalizing n q with
  | nil =>
      have same := (h.depth_eq hp).symm.trans (h.depth_eq hq)
      exact (List.length_eq_zero_iff.mp same.symm).symm
  | append_singleton p i ih =>
      have same := (h.depth_eq hp).symm.trans (h.depth_eq hq)
      cases q using List.reverseRecOn with
      | nil => simp at same
      | append_singleton q j =>
          obtain ⟨m, hm, hi⟩ := h.standsAt_concat_iff.mp hp
          obtain ⟨k, hk, hj⟩ := h.standsAt_concat_iff.mp hq
          have position := (h.position_eq hi).symm.trans (h.position_eq hj)
          obtain ⟨rfl, rfl⟩ := Prod.mk.inj (Except.ok.inj position)
          rw [ih hm hk]

end WellFormed

end Tree

end GrammarEvolution
