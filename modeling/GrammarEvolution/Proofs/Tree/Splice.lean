import GrammarEvolution.Proofs.Tree.Linking

/-!
Splicing is replacement in the shape.

* `WellFormed.plant_eq`: a child slot that is given a new subtree yields the tree of the shape with
  that subtree replaced, whatever else the table holds.
* `WellFormed.replace_eq`, `WellFormed.swap_eq`: so do the two splices, at every node that the root
  reaches through another.
-/

namespace GrammarEvolution

namespace Tree

/-- The table with a copy of `r` at its end and in the child slot, before it is compacted. -/
def planted (t : Tree) (owner index : Nat) (r : Rose SymbolId) : Tree :=
  ⟨(t.nodes ++ r.layout t.nodes.size (some owner)).modify owner fun node =>
    { node with children := node.children.set index t.nodes.size }⟩

theorem plant_eq_compact (t : Tree) (owner index : Nat) (r : Rose SymbolId) :
    t.plant owner index r = (t.planted owner index r).compact :=
  rfl

section Planted

variable {t : Tree} {owner index n : Nat} {r : Rose SymbolId}

theorem planted_eq : t.planted owner index r =
    (t.graft r (some owner)).2.relink owner (·.set index t.nodes.size) :=
  rfl

/-- Only the child slot of the owner changes. -/
theorem children_planted (hasOwner : owner < t.nodes.size) (inside : n < t.nodes.size) :
    (t.planted owner index r).children n =
      if n = owner then (t.children n).set index t.nodes.size else t.children n := by
  rw [planted_eq, children_relink (lt_size_graft hasOwner _), children_graft inside]

theorem symbol_planted (hasOwner : owner < t.nodes.size) (inside : n < t.nodes.size) :
    (t.planted owner index r).symbol n = t.symbol n := by
  rw [planted_eq, symbol_relink (lt_size_graft hasOwner _), symbol, node_graft inside, symbol]

/-- The copy is laid out behind the old nodes. -/
theorem shapeAt_planted_copy (hasOwner : owner < t.nodes.size) :
    (t.planted owner index r).shapeAt t.nodes.size = r := by
  rw [planted_eq]
  exact shapeAt_of_holds t.nodes.size (some owner) r
    ((holds_relink_iff hasOwner).mpr (holds_graft t r (some owner)))

/-- With the copy in the child slot the table is well-formed again. The old subtree stays in it
with nobody to own it. -/
theorem WellFormed.planted (h : t.WellFormed) (hasOwner : owner < t.nodes.size) (index : Nat)
    (r : Rose SymbolId) : (t.planted owner index r).WellFormed := by
  rw [planted_eq]
  refine h.graft_relink hasOwner r ?_ fun c hc => List.mem_or_eq_of_mem_set hc
  exact (h.children_nodup_at owner).set (h.size_not_mem_children owner)

/-- An old node keeps its shape but for the new subtree in the slot of the owner. -/
theorem WellFormed.shapeAt_planted (h : t.WellFormed) (hasOwner : owner < t.nodes.size)
    (inside : n < t.nodes.size) :
    (t.planted owner index r).shapeAt n = Rose.patch t.symbol owner index r (t.outline n) := by
  induction n using h.wellFounded_children.induction with
  | _ n ih =>
      have below : (t.children n).map (t.planted owner index r).shapeAt =
          ((t.children n).map t.outline).map (Rose.patch t.symbol owner index r) := by
        rw [List.map_map]
        exact List.map_congr_left fun c hc => ih c hc (h.child_bounds n c hc).2
      rw [(h.planted hasOwner index r).shapeAt_eq, h.outline_eq, Rose.patch_node,
        symbol_planted hasOwner inside, children_planted hasOwner inside, ← below]
      split
      · rw [List.map_set, shapeAt_planted_copy hasOwner]
      · rfl

end Planted

variable {t u : Tree} {n m i : Nat} {p q : List Nat}

namespace WellFormed

/-- **Planting is replacement.** The spliced table holds the shape in which the subtree of the slot
has been replaced, in pre-order, and nothing else. -/
theorem plant_eq (h : t.WellFormed) (hm : t.StandsAt m p) (hi : (t.children m)[i]? = some n)
    (r : Rose SymbolId) : t.plant m i r = ofShape (t.shape.replaceAt r (p ++ [i])) := by
  have slot : i < (t.outline m).children.length := by
    rw [h.outline_eq, Rose.children_node, List.length_map]
    exact (List.getElem?_eq_some_iff.mp hi).1
  have unique : ∀ q v, (t.outline t.root).subtreeAt q = some v → v.label = m → q = p := by
    rintro q v hv rfl
    exact h.standsAt_unique (hv.trans (congrArg some (subtreeAt_outline hv))) hm
  rw [plant_eq_compact, compact, shape]
  congr 1
  calc (t.planted m i r).shapeAt t.root
      = Rose.patch t.symbol m i r (t.outline t.root) :=
        h.shapeAt_planted (h.lt_size_of_standsAt hm) h.nonempty
    _ = t.shape.replaceAt r (p ++ [i]) :=
        Rose.patch_of_unique t.symbol m i r hm (label_outline t m) slot unique

/-- Replacing at a node other than the root replaces in the shape. -/
theorem replace_eq (h : t.WellFormed) (hn : t.StandsAt n p) (notRoot : n ≠ t.root) (u : Tree) :
    t.replace n u = .ok (ofShape (t.shape.replaceAt u.shape p)) := by
  obtain ⟨m, i, q, rfl, hm, hi, position⟩ := h.exists_position hn notRoot
  rw [replace, position, ← h.plant_eq hm hi]
  rfl

/-- Exchanging two nodes other than roots replaces each subtree by the other in the shapes. -/
theorem swap_eq (ht : t.WellFormed) (hu : u.WellFormed) (hn : t.StandsAt n p)
    (hm : u.StandsAt m q) (nNotRoot : n ≠ t.root) (mNotRoot : m ≠ u.root) :
    t.swap n u m = .ok (ofShape (t.shape.replaceAt (u.shapeAt m) p),
      ofShape (u.shape.replaceAt (t.shapeAt n) q)) := by
  obtain ⟨k, i, p, rfl, hk, hi, position⟩ := ht.exists_position hn nNotRoot
  obtain ⟨l, j, q, rfl, hl, hj, position'⟩ := hu.exists_position hm mNotRoot
  rw [swap, position, position', ← ht.plant_eq hk hi, ← hu.plant_eq hl hj]
  rfl

end WellFormed

end Tree

end GrammarEvolution
