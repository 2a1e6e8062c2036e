import GrammarEvolution.Proofs.Tree.Layout

/-!
What may be done to a well-formed tree.

Everything that writes to a table either puts a laid-out subtree at its end (`graft`) or rewrites
the list of children of one node (`relink`).

* `wellFormed_of_linked`: where every child names its owner, no node is a child twice as soon as no
  list repeats itself.
* `WellFormed.graft`, `WellFormed.graft_relink`: a subtree at the end may hang below any node of the
  tree, and may be taken into the children of that node in any place.
* `WellFormed.pushChildren`: so new nodes may be put below any node.
-/

namespace GrammarEvolution

namespace Tree

variable {t : Tree} {n owner : Nat} {r : Rose SymbolId} {parent : Option Nat}

/-! ### Well-formedness from the links -/

theorem node_of_lt (inside : n < t.nodes.size) : t.node n = t.nodes[n] :=
  node_of_getElem? (Array.getElem?_eq_getElem inside)

/-- Two lists of children share no node when every child names its owner. -/
theorem nodup_flatMap_children (each : ∀ n, (t.children n).Nodup)
    (up : ∀ n c, c ∈ t.children n → t.parent c = some n) :
    (t.nodes.toList.flatMap Node.children).Nodup := by
  have listed : ∀ k (hk : k < t.nodes.toList.length),
      t.nodes.toList[k].children = t.children k := fun k hk => by
    rw [children, node_of_lt (by simpa using hk), Array.getElem_toList]
  rw [List.nodup_flatMap]
  constructor
  · intro x hx
    obtain ⟨k, hk, rfl⟩ := List.getElem_of_mem hx
    rw [listed k hk]
    exact each k
  · rw [List.pairwise_iff_getElem]
    intro i j hi hj before c inFirst inSecond
    rw [listed i hi] at inFirst
    rw [listed j hj] at inSecond
    have same := (up i c inFirst).symm.trans (up j c inSecond)
    exact Nat.ne_of_lt before (Option.some.inj same)

/-- Well-formedness in terms of the links of each node alone. -/
theorem wellFormed_of_linked (nonempty : 0 < t.nodes.size) (top : t.parent t.root = none)
    (linked : ∀ n, t.Linked n) (each : ∀ n, (t.children n).Nodup)
    (up : ∀ n p, t.parent n = some p → p < n) : t.WellFormed where
  nonempty := nonempty
  root_parent := top
  child_bounds n c hc := ⟨(linked n c hc).1, lt_size_of_parent (linked n c hc).2⟩
  child_parent n c hc := (linked n c hc).2
  children_nodup := nodup_flatMap_children each fun n c hc => (linked n c hc).2
  parent_lt := up

theorem WellFormed.linked (h : t.WellFormed) (n : Nat) : t.Linked n := fun c hc =>
  ⟨(h.child_bounds n c hc).1, h.child_parent n c hc⟩

/-- It is enough to look at the nodes of the table: beyond it there is nothing. -/
theorem wellFormed_iff (t : Tree) : t.WellFormed ↔
    0 < t.nodes.size ∧ t.parent t.root = none ∧
      (∀ n < t.nodes.size, ∀ c ∈ t.children n,
        (n < c ∧ c < t.nodes.size) ∧ t.parent c = some n) ∧
      (t.nodes.toList.flatMap Node.children).Nodup ∧
      ∀ n < t.nodes.size, ∀ p ∈ t.parent n, p < n := by
  constructor
  · intro h
    exact ⟨h.nonempty, h.root_parent,
      fun n _ c hc => ⟨h.child_bounds n c hc, h.child_parent n c hc⟩, h.children_nodup,
      fun n _ p hp => h.parent_lt n p hp⟩
  · rintro ⟨nonempty, top, linked, nodup, up⟩
    have inside : ∀ n c, c ∈ t.children n → n < t.nodes.size := fun n c hc =>
      Nat.lt_of_not_le fun outside => by
        rw [children_eq_nil outside] at hc
        cases hc
    exact {
      nonempty := nonempty
      root_parent := top
      child_bounds := fun n c hc => (linked n (inside n c hc) c hc).1
      child_parent := fun n c hc => (linked n (inside n c hc) c hc).2
      children_nodup := nodup
      parent_lt := fun n p hp => up n (lt_size_of_parent hp) p hp }

instance : Decidable t.WellFormed :=
  decidable_of_iff' _ (wellFormed_iff t)

/-! ### A subtree at the end of the table -/

section Graft

theorem getElem?_append_list (nodes : Array Node) (more : List Node) (n : Nat) :
    (nodes ++ more)[n]? = if n < nodes.size then nodes[n]? else more[n - nodes.size]? := by
  rw [← Array.getElem?_toList, Array.toList_appendList, List.getElem?_append,
    Array.length_toList, Array.getElem?_toList]

theorem getElem?_graft (t : Tree) (r : Rose SymbolId) (parent : Option Nat) (n : Nat) :
    (t.graft r parent).2.nodes[n]? = if n < t.nodes.size then t.nodes[n]?
      else (r.layout t.nodes.size parent)[n - t.nodes.size]? :=
  getElem?_append_list t.nodes _ n

/-- The old nodes stay as they were. -/
theorem node_graft (inside : n < t.nodes.size) : (t.graft r parent).2.node n = t.node n := by
  rw [node, node, Array.getD_eq_getD_getElem?, Array.getD_eq_getD_getElem?, getElem?_graft,
    if_pos inside]

theorem children_graft (inside : n < t.nodes.size) :
    (t.graft r parent).2.children n = t.children n := by
  rw [children, node_graft inside, children]

theorem parent_graft (inside : n < t.nodes.size) :
    (t.graft r parent).2.parent n = t.parent n := by
  rw [Tree.parent, node_graft inside, Tree.parent]

theorem holds_graft (t : Tree) (r : Rose SymbolId) (parent : Option Nat) :
    (t.graft r parent).2.Holds t.nodes.size (r.layout t.nodes.size parent) :=
  holds_of_getElem? fun k _ => by
    rw [getElem?_graft, if_neg (by omega), Nat.add_sub_cancel_left]

theorem parent_graft_top : (t.graft r parent).2.parent t.nodes.size = parent := by
  have holds := holds_graft t r parent
  cases r with
  | node s cs =>
      rw [Rose.layout] at holds
      rw [Tree.parent, node_of_getElem? holds.1]

@[simp] theorem size_graft : (t.graft r parent).2.nodes.size = t.nodes.size + r.size := by
  rw [graft, ← Array.length_toList, Array.toList_appendList, List.length_append,
    Array.length_toList, Rose.length_layout]

theorem lt_size_graft (inside : n < t.nodes.size) (parent : Option Nat) :
    n < (t.graft r parent).2.nodes.size := by
  rw [size_graft]
  omega

/-- Every node of a grafted table is an old one, the top of the new subtree, or below that. -/
theorem graft_cases (inside : n < (t.graft r parent).2.nodes.size) :
    n < t.nodes.size ∨ n = t.nodes.size ∨ t.nodes.size < n ∧ n < t.nodes.size + r.size := by
  rw [size_graft] at inside
  omega

theorem children_graft_nodup (h : t.WellFormed) (n : Nat) :
    ((t.graft r parent).2.children n).Nodup := by
  by_cases old : n < t.nodes.size
  · rw [children_graft old]
    exact h.children_nodup_at n
  · by_cases outside : (t.graft r parent).2.nodes.size ≤ n
    · rw [children_eq_nil outside]
      exact List.nodup_nil
    · have layout := getElem?_graft t r parent n
      rw [if_neg old, Array.getElem?_eq_getElem (Nat.lt_of_not_le outside)] at layout
      rw [children, node_of_lt (Nat.lt_of_not_le outside)]
      have all := (Rose.children_layout_perm t.nodes.size parent r).nodup_iff.mpr List.nodup_range'
      exact (List.nodup_flatMap.mp all).1 _ (List.mem_of_getElem? layout.symm)

theorem linked_graft (h : t.WellFormed) (n : Nat) : (t.graft r parent).2.Linked n := by
  by_cases old : n < t.nodes.size
  · intro c hc
    rw [children_graft old] at hc
    obtain ⟨after, inside⟩ := h.child_bounds n c hc
    exact ⟨after, by rw [parent_graft inside, h.child_parent n c hc]⟩
  · by_cases outside : (t.graft r parent).2.nodes.size ≤ n
    · intro c hc
      rw [children_eq_nil outside] at hc
      cases hc
    · rw [size_graft] at outside
      exact linked_of_holds _ _ r (holds_graft t r parent) n (by omega) (by omega)

/-- A subtree at the end of the table may name any node of the tree as its parent, or none. -/
theorem WellFormed.graft (h : t.WellFormed) (r : Rose SymbolId) (parent : Option Nat)
    (hp : ∀ p ∈ parent, p < t.nodes.size) : (t.graft r parent).2.WellFormed := by
  refine wellFormed_of_linked (lt_size_graft h.nonempty parent) ?_ (linked_graft h)
    (children_graft_nodup h) fun n p up => ?_
  · exact (parent_graft h.nonempty).trans h.root_parent
  · rcases graft_cases (lt_size_of_parent up) with old | rfl | ⟨after, inside⟩
    · rw [parent_graft old] at up
      exact h.parent_lt n p up
    · rw [parent_graft_top] at up
      exact hp p up
    · obtain ⟨q, up', before⟩ := parent_lt_of_holds _ _ r (holds_graft t r parent) n after inside
      rw [up] at up'
      cases up'
      exact before

/-- An old node has the shape it had. -/
theorem WellFormed.shapeAt_graft (h : t.WellFormed) (inside : n < t.nodes.size) :
    (t.graft r parent).2.shapeAt n = t.shapeAt n := by
  induction n using h.wellFounded_children.induction with
  | _ n ih =>
      have bounds : ∀ c ∈ (t.graft r parent).2.children n,
          n < c ∧ c < (t.graft r parent).2.nodes.size := fun c hc =>
        ⟨(linked_graft h n c hc).1, lt_size_of_parent (linked_graft h n c hc).2⟩
      rw [shapeAt_of_bounds bounds, h.shapeAt_eq, symbol, node_graft inside, children_graft inside,
        symbol]
      congr 1
      exact List.map_congr_left fun c hc => ih c hc (h.child_bounds n c hc).2

end Graft

/-! ### New children for one node -/

/-- The table in which the list of children of one node has been rewritten. -/
def relink (t : Tree) (owner : Nat) (f : List Nat → List Nat) : Tree :=
  ⟨t.nodes.modify owner fun node => { node with children := f node.children }⟩

section Relink

variable {f : List Nat → List Nat}

@[simp] theorem size_relink : (t.relink owner f).nodes.size = t.nodes.size :=
  Array.size_modify

theorem node_relink (inside : owner < t.nodes.size) :
    (t.relink owner f).node n =
      if n = owner then { t.node n with children := f (t.children n) } else t.node n := by
  rw [children, node, node, Array.getD_eq_getD_getElem?, Array.getD_eq_getD_getElem?, relink,
    Array.getElem?_modify]
  by_cases here : owner = n
  · subst here
    rw [if_pos rfl, if_pos rfl, Array.getElem?_eq_getElem inside]
    rfl
  · rw [if_neg here, if_neg (Ne.symm here)]

theorem children_relink (inside : owner < t.nodes.size) :
    (t.relink owner f).children n = if n = owner then f (t.children n) else t.children n := by
  rw [children, node_relink inside]
  split <;> rfl

theorem symbol_relink (inside : owner < t.nodes.size) :
    (t.relink owner f).symbol n = t.symbol n := by
  rw [symbol, node_relink inside]
  split <;> rfl

theorem parent_relink (inside : owner < t.nodes.size) :
    (t.relink owner f).parent n = t.parent n := by
  rw [Tree.parent, node_relink inside]
  split <;> rfl

/-- What comes after the node stays as it was. -/
theorem holds_relink_iff {base : Nat} {nodes : List Node} (before : owner < base) :
    (t.relink owner f).Holds base nodes ↔ t.Holds base nodes := by
  induction nodes generalizing base with
  | nil => exact Iff.rfl
  | cons node nodes ih =>
      rw [Holds, Holds, ih (by omega), relink, Array.getElem?_modify, if_neg (by omega)]

/-- The new children must be later nodes that name the node as their parent, each once. -/
theorem WellFormed.relink (h : t.WellFormed) (inside : owner < t.nodes.size)
    (nodup : (f (t.children owner)).Nodup)
    (links : ∀ c ∈ f (t.children owner), owner < c ∧ t.parent c = some owner) :
    (t.relink owner f).WellFormed := by
  refine wellFormed_of_linked ?_ ?_ (fun n c hc => ?_) (fun n => ?_) fun n p up => ?_
  · rw [size_relink]
    exact h.nonempty
  · rw [parent_relink inside]
    exact h.root_parent
  · rw [parent_relink inside]
    rw [children_relink inside] at hc
    split at hc
    · subst n
      exact links c hc
    · exact h.linked n c hc
  · rw [children_relink inside]
    split
    · subst n
      exact nodup
    · exact h.children_nodup_at n
  · rw [parent_relink inside] at up
    exact h.parent_lt n p up

/-- A subtree at the end may join the children of its parent, in any place. -/
theorem WellFormed.graft_relink (h : t.WellFormed) (inside : owner < t.nodes.size)
    (r : Rose SymbolId) (nodup : (f (t.children owner)).Nodup)
    (among : ∀ c ∈ f (t.children owner), c ∈ t.children owner ∨ c = t.nodes.size) :
    ((t.graft r (some owner)).2.relink owner f).WellFormed := by
  have grafted := h.graft r (some owner) fun p hp => Option.some.inj hp ▸ inside
  have same : (t.graft r (some owner)).2.children owner = t.children owner :=
    children_graft inside
  refine grafted.relink (lt_size_graft inside _) (by rw [same]; exact nodup) fun c hc => ?_
  rw [same] at hc
  rcases among c hc with old | rfl
  · exact grafted.linked owner c (by rw [same]; exact old)
  · exact ⟨inside, parent_graft_top⟩

/-- The number of a new node is nobody's child yet. -/
theorem WellFormed.size_not_mem_children (h : t.WellFormed) (n : Nat) :
    t.nodes.size ∉ t.children n := fun hc =>
  Nat.lt_irrefl _ (h.child_bounds n _ hc).2

end Relink

/-! ### New nodes -/

section Push

variable {s : SymbolId}

theorem pushChild_eq : (t.pushChild owner s).2 =
    (t.graft (.node s []) (some owner)).2.relink owner (· ++ [t.nodes.size]) := by
  rw [graft, Rose.layout]
  rfl

theorem size_pushChild : (t.pushChild owner s).2.nodes.size = t.nodes.size + 1 := by
  rw [pushChild_eq, size_relink, size_graft]
  rfl

theorem WellFormed.pushChild (h : t.WellFormed) (inside : owner < t.nodes.size)
    (s : SymbolId) : (t.pushChild owner s).2.WellFormed := by
  have fresh : (t.children owner).Disjoint [t.nodes.size] :=
    List.disjoint_singleton.mpr (h.size_not_mem_children owner)
  rw [pushChild_eq]
  refine h.graft_relink inside _ ?_ fun c hc => ?_
  · exact (h.children_nodup_at owner).append (List.nodup_singleton _) fresh
  · simpa using hc

theorem WellFormed.pushChildren (h : t.WellFormed) (inside : owner < t.nodes.size)
    (ss : List SymbolId) : (t.pushChildren owner ss).2.WellFormed := by
  induction ss generalizing t with
  | nil => exact h
  | cons s ss ih =>
      have room : owner < (t.pushChild owner s).2.nodes.size := by
        rw [size_pushChild]
        omega
      exact ih (h.pushChild inside s) room

end Push

end Tree

end GrammarEvolution
