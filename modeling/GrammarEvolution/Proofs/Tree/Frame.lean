import GrammarEvolution.Proofs.Tree.Linking

/-!
What one rewritten node does to the whole.

* `subtrees_shape`: the parts of a shape are the shapes of the nodes that the root reaches.
* `WellFormed.shapeAt_of_unchanged`: a node keeps its shape when nothing below it changes.
* `WellFormed.shape_of_frame`: when one node changes and all others stay, the shape of that node is
  replaced in the shape of the tree.
* `WellFormed.shape_pushChildren`: so is a childless node below which new nodes are put.
* `WellFormed.standsAt_of_frame`: when a childless node changes, all nodes stand where they did.
-/

namespace GrammarEvolution

namespace Rose

variable {α β : Type}

theorem subtrees_map (f : α → β) (t : Rose α) : (t.map f).subtrees = t.subtrees.map (map f) := by
  induction t using Rose.induction with
  | step a cs ih =>
      rw [map_node, subtrees_node, subtrees_node, List.map_cons, List.map_flatMap, List.flatMap_map,
        map_node]
      exact congrArg _ (List.flatMap_congr ih)

end Rose

namespace Tree

variable {t t' : Tree} {n m owner : Nat} {p q : List Nat}

/-- The parts of an outline are the outlines of the nodes on its walk. -/
theorem subtrees_outline (t : Tree) (n : Nat) :
    (t.outline n).subtrees = (t.outline n).preorder.map t.outline := by
  rw [Rose.preorder_eq_map_label, List.map_map]
  refine (List.map_id _).symm.trans (List.map_congr_left fun u hu => ?_)
  obtain ⟨p, hp⟩ := Rose.mem_subtrees_iff.mp hu
  exact subtreeAt_outline hp

/-- The parts of a shape are the shapes of the nodes that the root reaches. -/
theorem subtrees_shape (t : Tree) : t.shape.subtrees = t.preorder.map t.shapeAt := by
  rw [shape, shapeAt, Rose.subtrees_map, subtrees_outline, List.map_map]
  rfl

/-- An address that goes on from a node goes on from the address of that node. -/
theorem StandsAt.append (hm : t.StandsAt m q)
    (hn : (t.outline m).subtreeAt p = some (t.outline n)) : t.StandsAt n (q ++ p) := by
  rw [StandsAt, Rose.subtreeAt_append, show (t.outline t.root).subtreeAt q = _ from hm]
  exact hn

namespace WellFormed

/-- A node keeps its shape when nothing below it changes. -/
theorem shapeAt_of_unchanged (h : t.WellFormed) (h' : t'.WellFormed)
    (same : ∀ k ∈ (t.outline n).preorder,
      t'.symbol k = t.symbol k ∧ t'.children k = t.children k) :
    t'.shapeAt n = t.shapeAt n := by
  induction n using h.wellFounded_children.induction with
  | _ n ih =>
      rw [h.outline_eq, Rose.preorder_node, List.flatMap_map] at same
      obtain ⟨symbol, children⟩ := same n List.mem_cons_self
      rw [h'.shapeAt_eq, h.shapeAt_eq, symbol, children]
      congr 1
      refine List.map_congr_left fun c hc => ih c hc fun k hk => same k ?_
      exact List.mem_cons_of_mem n (List.mem_flatMap.mpr ⟨c, hc, hk⟩)

/-- When one node changes and all others stay, every node above it has the new shape of that node
in place of the old one. -/
theorem shapeAt_of_frame (h : t.WellFormed) (h' : t'.WellFormed)
    (frame : ∀ k < t.nodes.size, k ≠ n → t'.symbol k = t.symbol k ∧ t'.children k = t.children k)
    (hm : t.StandsAt m q) (hn : (t.outline m).subtreeAt p = some (t.outline n)) :
    t'.shapeAt m = (t.shapeAt m).replaceAt (t'.shapeAt n) p := by
  induction p generalizing m q with
  | nil => rw [Rose.replaceAt_nil, outline_injective (Option.some.inj hn)]
  | cons i p ih =>
      have above : m ≠ n := by
        rintro rfl
        have returns := h.standsAt_unique hm (hm.append hn)
        simp at returns
      have child : ∃ c, (t.children m)[i]? = some c ∧
          (t.outline c).subtreeAt p = some (t.outline n) := by
        obtain ⟨u, hu, below⟩ := Rose.subtreeAt_cons_eq_some_iff.mp hn
        rw [h.outline_eq, Rose.children_node, List.getElem?_map] at hu
        obtain ⟨c, hc, rfl⟩ := Option.map_eq_some_iff.mp hu
        exact ⟨c, hc, below⟩
      obtain ⟨c, hc, below⟩ := child
      obtain ⟨symbol, children⟩ := frame m (h.lt_size_of_standsAt hm) above
      have slot : (t.shapeAt m).children[i]? = some (t.shapeAt c) := by
        rw [h.shapeAt_eq, Rose.children_node, List.getElem?_map, hc]
        rfl
      have here := ih (h.standsAt_concat_iff.mpr ⟨m, hm, hc⟩) below
      rw [Rose.replaceAt_cons slot, ← here, h'.shapeAt_eq, h.shapeAt_eq, symbol, children,
        Rose.label_node, Rose.children_node]
      congr 1
      apply List.ext_getElem?
      intro j
      rw [List.getElem?_set, List.getElem?_map, List.getElem?_map]
      by_cases hij : i = j
      · subst hij
        obtain ⟨inside, rfl⟩ := List.getElem?_eq_some_iff.mp hc
        simp [inside]
      · rw [if_neg hij]
        cases hd : (t.children m)[j]? with
        | none => rfl
        | some d =>
            -- The node stands below one child only, so nothing below the others changes.
            refine congrArg some (h.shapeAt_of_unchanged h' fun k hk => ?_)
            obtain ⟨r, u, hu, rfl⟩ := Rose.mem_preorder_iff.mp hk
            have standsD := h.standsAt_concat_iff.mpr ⟨m, hm, hd⟩
            have stands := standsD.append (hu.trans (congrArg some (subtreeAt_outline hu)))
            refine frame _ (h.lt_size_of_standsAt stands) fun same => hij ?_
            rw [same, List.append_assoc] at stands
            have address := h.standsAt_unique (hm.append hn) stands
            exact (List.cons.inj (List.append_cancel_left address)).1

/-- **When one node changes** and all others stay, the shape of that node is replaced in the shape
of the tree. -/
theorem shape_of_frame (h : t.WellFormed) (h' : t'.WellFormed)
    (frame : ∀ k < t.nodes.size, k ≠ n → t'.symbol k = t.symbol k ∧ t'.children k = t.children k)
    (hn : t.StandsAt n p) : t'.shape = t.shape.replaceAt (t'.shapeAt n) p :=
  h.shapeAt_of_frame h' frame (standsAt_nil_iff.mpr rfl) hn

/-- When a childless node changes, nothing has stood below it, and all stand where they did. -/
theorem standsAt_of_frame (h : t.WellFormed) (h' : t'.WellFormed) (leaf : t.children n = [])
    (frame : ∀ k < t.nodes.size, k ≠ n → t'.children k = t.children k) (hm : t.StandsAt m q) :
    t'.StandsAt m q := by
  induction q using List.reverseRecOn generalizing m with
  | nil =>
      have top : m = t.root := standsAt_nil_iff.mp hm
      exact standsAt_nil_iff.mpr top
  | append_singleton q i ih =>
      obtain ⟨owner, above, listed⟩ := h.standsAt_concat_iff.mp hm
      have other : owner ≠ n := by
        rintro rfl
        simp [leaf] at listed
      refine h'.standsAt_concat_iff.mpr ⟨owner, ih above, ?_⟩
      rw [frame owner (h.lt_size_of_standsAt above) other, listed]

end WellFormed

/-! ### New nodes below one node -/

section Push

variable {s : SymbolId} {ss : List SymbolId}

theorem children_pushChild (inside : owner < t.nodes.size) (n : Nat) :
    (t.pushChild owner s).2.children n =
      if n = owner then t.children n ++ [t.nodes.size] else t.children n := by
  have grafted : (t.graft (.node s []) (some owner)).2.children n = t.children n := by
    by_cases old : n < t.nodes.size
    · exact children_graft old
    · rw [children_eq_nil (Nat.le_of_not_lt old)]
      by_cases fresh : n = t.nodes.size
      · subst fresh
        have holds := holds_graft t (.node s []) (some owner)
        rw [Rose.layout] at holds
        rw [children, node_of_getElem? holds.1, Rose.rootNumbers]
      · refine children_eq_nil ?_
        rw [size_graft, Rose.size_node_eq_sum, List.map_nil, List.sum_nil]
        omega
  rw [pushChild_eq, children_relink (lt_size_graft inside _), grafted]

theorem symbol_pushChild (inside : owner < t.nodes.size) (old : n < t.nodes.size) :
    (t.pushChild owner s).2.symbol n = t.symbol n := by
  rw [pushChild_eq, symbol_relink (lt_size_graft inside _), symbol, node_graft old, symbol]

theorem symbol_pushChild_size (inside : owner < t.nodes.size) :
    (t.pushChild owner s).2.symbol t.nodes.size = s := by
  have holds := holds_graft t (.node s []) (some owner)
  rw [Rose.layout] at holds
  rw [pushChild_eq, symbol_relink (lt_size_graft inside _), symbol, node_of_getElem? holds.1]

theorem lt_size_pushChild (inside : n < t.nodes.size) (owner : Nat) (s : SymbolId) :
    n < (t.pushChild owner s).2.nodes.size := by
  rw [size_pushChild]
  omega

/-- The new nodes have the next numbers. -/
theorem fst_pushChildren (t : Tree) (owner : Nat) (ss : List SymbolId) :
    (t.pushChildren owner ss).1 = List.range' t.nodes.size ss.length := by
  induction ss generalizing t with
  | nil => rfl
  | cons s ss ih =>
      have later := ih (t.pushChild owner s).2
      rw [size_pushChild] at later
      rw [List.length_cons, List.range'_succ]
      exact congrArg (_ :: ·) later

/-- The new nodes come last among the children of their owner, and have none themselves. -/
theorem children_pushChildren (inside : owner < t.nodes.size) (n : Nat) :
    (t.pushChildren owner ss).2.children n =
      if n = owner then t.children n ++ List.range' t.nodes.size ss.length else t.children n := by
  induction ss generalizing t with
  | nil => simp [pushChildren]
  | cons s ss ih =>
      have later := ih (t := (t.pushChild owner s).2) (lt_size_pushChild inside owner s)
      refine later.trans ?_
      rw [children_pushChild inside, size_pushChild, List.length_cons, List.range'_succ]
      split
      · rw [List.append_assoc, List.singleton_append]
      · rfl

theorem symbol_pushChildren (inside : owner < t.nodes.size) (old : n < t.nodes.size) :
    (t.pushChildren owner ss).2.symbol n = t.symbol n := by
  induction ss generalizing t with
  | nil => rfl
  | cons s ss ih =>
      have later := ih (t := (t.pushChild owner s).2) (lt_size_pushChild inside owner s)
        (lt_size_pushChild old owner s)
      exact later.trans (symbol_pushChild inside old)

/-- The new nodes hold the symbols in order. -/
theorem map_symbol_pushChildren (inside : owner < t.nodes.size) :
    (List.range' t.nodes.size ss.length).map (t.pushChildren owner ss).2.symbol = ss := by
  induction ss generalizing t with
  | nil => rfl
  | cons s ss ih =>
      have room := lt_size_pushChild inside owner s
      have later := ih room
      rw [size_pushChild] at later
      rw [List.length_cons, List.range'_succ, List.map_cons]
      refine congrArg₂ List.cons ?_ later
      refine (symbol_pushChildren room ?_).trans (symbol_pushChild_size inside)
      rw [size_pushChild]
      exact Nat.lt_succ_self _

theorem childSymbols_pushChildren (inside : owner < t.nodes.size) (leaf : t.children owner = []) :
    (t.pushChildren owner ss).2.childSymbols owner = ss := by
  rw [childSymbols, children_pushChildren inside, if_pos rfl, leaf, List.nil_append,
    map_symbol_pushChildren inside]

/-- Below a childless node, new nodes are leaves that hold the symbols in order. -/
theorem WellFormed.shapeAt_pushChildren (h : t.WellFormed) (inside : owner < t.nodes.size)
    (leaf : t.children owner = []) :
    (t.pushChildren owner ss).2.shapeAt owner =
      .node (t.symbol owner) (ss.map fun s => .node s []) := by
  have wellFormed := h.pushChildren inside ss
  have below : ∀ k ∈ List.range' t.nodes.size ss.length,
      (t.pushChildren owner ss).2.shapeAt k =
        .node ((t.pushChildren owner ss).2.symbol k) [] := by
    intro k hk
    have fresh := (List.mem_range'_1.mp hk).1
    rw [wellFormed.shapeAt_eq, children_pushChildren inside, if_neg (by omega),
      children_eq_nil fresh, List.map_nil]
  rw [wellFormed.shapeAt_eq, symbol_pushChildren inside inside, children_pushChildren inside,
    if_pos rfl, leaf, List.nil_append, List.map_congr_left below]
  congr 1
  have held : (List.range' t.nodes.size ss.length).map (t.pushChildren owner ss).2.symbol = ss :=
    map_symbol_pushChildren inside
  conv_rhs => rw [← held, List.map_map]
  rfl

/-- **New nodes below a childless node** grow in its place and nowhere else. -/
theorem WellFormed.shape_pushChildren (h : t.WellFormed) (hn : t.StandsAt n p)
    (leaf : t.children n = []) (ss : List SymbolId) :
    (t.pushChildren n ss).2.shape =
      t.shape.replaceAt (.node (t.symbol n) (ss.map fun s => .node s [])) p := by
  have inside := h.lt_size_of_standsAt hn
  rw [← h.shapeAt_pushChildren inside leaf]
  refine h.shape_of_frame (h.pushChildren inside ss) (fun k hk differs => ?_) hn
  exact ⟨symbol_pushChildren inside hk, by rw [children_pushChildren inside, if_neg differs]⟩

end Push

end Tree

end GrammarEvolution
