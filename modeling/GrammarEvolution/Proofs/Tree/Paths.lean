import GrammarEvolution.Proofs.Tree.Frame
import GrammarEvolution.Proofs.Tree.Reached
import GrammarEvolution.Proofs.Tree.Substitution
import Mathlib.Data.Set.Card

/-!
Links up against links down.

`Path t n p m` follows links down, from `n` to `m`, and `p` says which child is taken at each node.
What a walk with a stack, a climb, a search among the children of a parent and a recursion over
children find out about a node can all be said in terms of paths.

* `WellFormed.path_iff`: paths are addresses of outlines.
* `WellFormed.path_preorder`: the nodes below a node come in the order of their paths.
* `WellFormed.path_unique`, `WellFormed.depth_of_path`: from a node that the root reaches, one path
  at most leads to each node, and depth grows along it by one for each link.
* `links_agree`: so the two directions agree on every node that the root reaches.
-/

namespace GrammarEvolution

namespace Tree

variable {t : Tree} {n m : Nat} {p q : List Nat}

/-! ### Paths -/

/-- A path down from a node, by the index of the child that is taken at each node on it. -/
inductive Path (t : Tree) : Nat → List Nat → Nat → Prop
  | stay {n : Nat} : Path t n [] n
  | down {n c m i : Nat} {p : List Nat} :
      (t.children n)[i]? = some c → Path t c p m → Path t n (i :: p) m

/-- Some path leads down from `n` to `m`. -/
def Reaches (t : Tree) (n m : Nat) : Prop :=
  ∃ p, t.Path n p m

namespace WellFormed

variable (h : t.WellFormed)

include h

/-- Paths down from a node are the addresses of its outline. -/
theorem path_iff : t.Path n p m ↔ (t.outline n).subtreeAt p = some (t.outline m) := by
  induction p generalizing n with
  | nil =>
      constructor
      · rintro ⟨⟩
        rfl
      · intro same
        rw [outline_injective (Option.some.inj same)]
        exact .stay
  | cons i p ih =>
      rw [Rose.subtreeAt_cons_eq_some_iff, h.outline_eq, Rose.children_node]
      constructor
      · rintro (_ | ⟨slot, rest⟩)
        exact ⟨_, by rw [List.getElem?_map, slot]; rfl, ih.mp rest⟩
      · rintro ⟨u, slot, rest⟩
        rw [List.getElem?_map] at slot
        obtain ⟨c, here, rfl⟩ := Option.map_eq_some_iff.mp slot
        exact .down here (ih.mpr rest)

/-- What an outline has at an address is what the path leads to. -/
theorem path_label {u : Rose Nat} (here : (t.outline n).subtreeAt p = some u) :
    t.Path n p u.label :=
  h.path_iff.mpr (here.trans (congrArg some (subtreeAt_outline here)))

/-- The nodes below a node come in the order of their paths. -/
theorem path_preorder (n : Nat) :
    List.Forall₂ (t.Path n) (t.outline n).addresses (t.outline n).preorder := by
  rw [Rose.preorder_eq_map_label, List.forall₂_map_right_iff]
  exact (t.outline n).subtrees_addresses.imp fun p u here => h.path_label here

/-- The walk below a node visits what the node reaches. -/
theorem mem_preorder_outline_iff : m ∈ (t.outline n).preorder ↔ t.Reaches n m := by
  rw [Rose.mem_preorder_iff]
  constructor
  · rintro ⟨p, u, here, rfl⟩
    exact ⟨p, h.path_label here⟩
  · rintro ⟨p, path⟩
    exact ⟨p, _, h.path_iff.mp path, label_outline t m⟩

section Reached

variable (reached : n ∈ t.preorder)

include reached

/-- One path at most leads down to each node. -/
theorem path_unique (hp : t.Path n p m) (hq : t.Path n q m) : p = q := by
  obtain ⟨above, stands⟩ := mem_preorder_iff_standsAt.mp reached
  have viaP := stands.append (h.path_iff.mp hp)
  have viaQ := stands.append (h.path_iff.mp hq)
  exact List.append_cancel_left (h.standsAt_unique viaP viaQ)

/-- Each link down is a link up. -/
theorem depth_of_path (path : t.Path n p m) : t.depth m = t.depth n + p.length := by
  obtain ⟨above, stands⟩ := mem_preorder_iff_standsAt.mp reached
  rw [h.depth_eq (stands.append (h.path_iff.mp path)), h.depth_eq stands, List.length_append]

/-- Nothing below a node is visited twice. -/
theorem nodup_preorder_outline : (t.outline n).preorder.Nodup := by
  refine (h.path_preorder n).nodup_right (fun p q m hp hq => h.path_unique reached hp hq) ?_
  exact (t.outline n).pairwise_addresses.imp fun before => ne_of_lt before

/-- The height of a node is how much deeper it gets below it. -/
theorem isGreatest_heightAt :
    IsGreatest {d | ∃ m, t.Reaches n m ∧ d = t.depth m - t.depth n} (t.heightAt n) := by
  constructor
  · obtain ⟨p, u, here, length⟩ := (t.outline n).exists_subtreeAt_length
    have path := h.path_label here
    refine ⟨u.label, ⟨p, path⟩, ?_⟩
    rw [h.depth_of_path reached path, Nat.add_sub_cancel_left, length, heightAt]
  · rintro _ ⟨m, ⟨p, path⟩, rfl⟩
    rw [h.depth_of_path reached path, Nat.add_sub_cancel_left]
    exact (Nat.le_add_right _ _).trans (Rose.add_height_le (h.path_iff.mp path))

/-- The size of a node is the number of nodes that it reaches. -/
theorem encard_reaches : {m | t.Reaches n m}.encard = t.sizeAt n := by
  have below : {m | t.Reaches n m} = ((t.outline n).preorder.toFinset : Set Nat) := by
    ext m
    rw [Set.mem_ofPred_eq, Finset.mem_coe, List.mem_toFinset, h.mem_preorder_outline_iff]
  rw [below, Set.encard_coe_eq_coe_finsetCard,
    List.toFinset_card_of_nodup (h.nodup_preorder_outline reached), Rose.length_preorder, sizeAt]

/-- Every node but the root is found among the children of its parent. -/
theorem position_of_ne_root (notRoot : n ≠ t.root) : ∃ m i, t.position n = .ok (m, i) ∧
    t.parent n = some m ∧ (t.children m)[i]? = some n := by
  obtain ⟨p, stands⟩ := mem_preorder_iff_standsAt.mp reached
  obtain ⟨m, i, -, -, -, slot, position⟩ := h.exists_position stands notRoot
  exact ⟨m, i, position, h.parent_of_child slot, slot⟩

end Reached

/-- The root is among nobody's children. -/
theorem position_root : t.position t.root = .error (.structural .rootHasNoPosition) := by
  rw [position, h.root_parent]
  rfl

end WellFormed

/-! ### Both directions together -/

/-- What is read off the links up and what is read off the links down is the same. -/
structure LinksAgree (t : Tree) : Prop where
  /-- The walk with a stack, the climbs and the recursions over children end with the results that
  the other parts speak of. -/
  walks : t.WalksEnd
  reached : ∀ n, n ∈ t.preorder ↔ t.Reaches t.root n
  once : t.preorder.Nodup
  ordered : ∃ paths, paths.Pairwise (· < ·) ∧ List.Forall₂ (t.Path t.root) paths t.preorder
  count : t.preorder.length = t.size
  depth_eq_length : ∀ n p, t.Path t.root p n → t.depth n = p.length
  position_root : t.position t.root = .error (.structural .rootHasNoPosition)
  position : ∀ n ∈ t.preorder, n ≠ t.root → ∃ m i, t.position n = .ok (m, i) ∧
    t.parent n = some m ∧ (t.children m)[i]? = some n
  deeper : ∀ n ∈ t.preorder, ∀ m, t.Reaches n m → t.depth n ≤ t.depth m
  heightAt : ∀ n ∈ t.preorder,
    IsGreatest {d | ∃ m, t.Reaches n m ∧ d = t.depth m - t.depth n} (t.heightAt n)
  sizeAt : ∀ n ∈ t.preorder, {m | t.Reaches n m}.encard = t.sizeAt n
  height : IsGreatest {d | ∃ n ∈ t.preorder, d = t.depth n} t.height

/-- **In every well-formed tree** the links up and the links down agree: the walk from the root
meets each node that the root reaches once, in the order of the paths; the climb from a node is as
long as the path to it; its parent lists it; and the recursions below it compute how much deeper the
tree gets there and how many nodes there are. -/
theorem links_agree (h : t.WellFormed) : t.LinksAgree := by
  have top : t.root ∈ t.preorder := h.mem_preorder_outline_iff.mpr ⟨[], .stay⟩
  have topDepth : t.depth t.root = 0 := h.depth_eq (standsAt_nil_iff.mpr rfl)
  exact {
    walks := h.walksEnd
    reached := fun n => h.mem_preorder_outline_iff
    once := h.nodup_preorder_outline top
    ordered := ⟨_, (t.outline t.root).pairwise_addresses, h.path_preorder t.root⟩
    count := Rose.length_preorder _
    depth_eq_length := fun n p path => by
      rw [h.depth_of_path top path, topDepth, Nat.zero_add]
    position_root := h.position_root
    position := fun n reached => h.position_of_ne_root reached
    deeper := fun n reached m ⟨p, path⟩ => by
      rw [h.depth_of_path reached path]
      exact Nat.le_add_right _ _
    heightAt := fun n reached => h.isGreatest_heightAt reached
    sizeAt := fun n reached => h.encard_reaches reached
    height := by
      have greatest := h.isGreatest_heightAt top
      simp only [topDepth, Nat.sub_zero, ← h.mem_preorder_outline_iff] at greatest
      exact greatest }

/-- Four nodes below a root, numbered across the walk, and a fifth that no node lists. -/
def crossed : Tree :=
  ⟨#[⟨0, none, [2, 1]⟩, ⟨1, some 0, [4]⟩, ⟨2, some 0, [3]⟩, ⟨3, some 2, []⟩, ⟨4, some 1, []⟩,
    ⟨5, some 1, []⟩]⟩

theorem links_agree_crossed : crossed.WellFormed ∧ crossed.LinksAgree := by
  have wellFormed : crossed.WellFormed := by decide
  exact ⟨wellFormed, links_agree wellFormed⟩

end Tree

end GrammarEvolution
