import GrammarEvolution.Proofs.Tree.Outline
import GrammarEvolution.Tree.Splice
import Mathlib.Algebra.GroupWithZero.Nat
import Mathlib.Data.List.Range

/-!
Rose trees laid out in a table.

`Holds t base nodes` says that the table of `t` has these nodes from number `base` on.

* `shapeAt_of_holds`: where a table holds the layout of a rose tree, the shape is that rose tree.
* `linked_of_holds`, `parent_lt_of_holds`: inside a layout, links down and links up agree.
* `children_layout_perm`: no number is a child twice.
* `shape_ofShape`, `wellFormed_ofShape`: the tree made of a rose tree is well-formed and has it as
  its shape.
-/

namespace GrammarEvolution

namespace Rose

open scoped List

theorem size_node_eq_sum {α : Type} (a : α) (cs : List (Rose α)) :
    (node a cs).size = (cs.map size).sum + 1 := by
  rw [size_node]
  induction cs with
  | nil => rfl
  | cons c cs ih =>
      rw [List.foldr_cons, ih, List.map_cons, List.sum_cons]
      omega

mutual

@[simp] theorem length_layout : ∀ (base : Nat) (parent : Option Nat) (r : Rose SymbolId),
    (r.layout base parent).length = r.size
  | base, parent, node s cs => by
      rw [layout, List.length_cons, length_layoutEach (base + 1) base cs, size_node_eq_sum]

@[simp] theorem length_layoutEach : ∀ (base owner : Nat) (cs : List (Rose SymbolId)),
    (layoutEach base owner cs).length = (cs.map size).sum
  | _, _, [] => rfl
  | base, owner, c :: cs => by
      rw [layoutEach, List.length_append, length_layout base (some owner) c,
        length_layoutEach (base + c.size) owner cs, List.map_cons, List.sum_cons]

end

mutual

/-- In a layout the children are all the numbers after the first, each once. -/
theorem children_layout_perm : ∀ (base : Nat) (parent : Option Nat) (r : Rose SymbolId),
    ((r.layout base parent).flatMap Node.children).Perm (List.range' (base + 1) (r.size - 1))
  | base, parent, node s cs => by
      rw [layout, List.flatMap_cons, size_node_eq_sum]
      exact children_layoutEach_perm (base + 1) base cs

theorem children_layoutEach_perm : ∀ (base owner : Nat) (cs : List (Rose SymbolId)),
    (rootNumbers base cs ++ (layoutEach base owner cs).flatMap Node.children).Perm
      (List.range' base (cs.map size).sum)
  | _, _, [] => List.Perm.refl []
  | base, owner, c :: cs => by
      have first := children_layout_perm base (some owner) c
      have rest := children_layoutEach_perm (base + c.size) owner cs
      have positive : c.size = c.size - 1 + 1 := (Nat.sub_add_cancel c.size_pos).symm
      rw [rootNumbers, layoutEach, List.flatMap_append, List.map_cons, List.sum_cons,
        ← List.range'_append_1]
      calc base :: rootNumbers (base + c.size) cs ++
            ((layout base (some owner) c).flatMap Node.children ++
              (layoutEach (base + c.size) owner cs).flatMap Node.children)
          ~ base :: ((layout base (some owner) c).flatMap Node.children ++
              (rootNumbers (base + c.size) cs ++
                (layoutEach (base + c.size) owner cs).flatMap Node.children)) := by
            rw [List.cons_append, List.perm_cons, ← List.append_assoc, ← List.append_assoc]
            exact List.perm_append_comm.append_right _
        _ ~ base :: (List.range' (base + 1) (c.size - 1) ++
              List.range' (base + c.size) (cs.map size).sum) :=
            (first.append rest).cons base
        _ = List.range' base c.size ++ List.range' (base + c.size) (cs.map size).sum := by
            conv_rhs => rw [positive, List.range'_succ, ← positive]
            rfl

end

end Rose

namespace Tree

variable {t : Tree}

/-- The table has these nodes, one after the other, from number `base` on. -/
def Holds (t : Tree) (base : Nat) : List Node → Prop
  | [] => True
  | node :: nodes => t.nodes[base]? = some node ∧ t.Holds (base + 1) nodes

theorem holds_append_iff {base : Nat} {xs ys : List Node} :
    t.Holds base (xs ++ ys) ↔ t.Holds base xs ∧ t.Holds (base + xs.length) ys := by
  induction xs generalizing base with
  | nil => simp [Holds]
  | cons x xs ih =>
      rw [List.cons_append, Holds, ih, Holds, and_assoc, List.length_cons,
        Nat.add_right_comm, Nat.add_assoc]

theorem holds_of_getElem? {base : Nat} {xs : List Node}
    (agree : ∀ k, k < xs.length → t.nodes[base + k]? = xs[k]?) : t.Holds base xs := by
  induction xs generalizing base with
  | nil => trivial
  | cons x xs ih =>
      refine ⟨agree 0 (by simp), ih fun k hk => ?_⟩
      have shifted := agree (k + 1) (by simpa using hk)
      rw [List.getElem?_cons_succ] at shifted
      rw [← shifted]
      congr 1
      omega

theorem node_of_getElem? {n : Nat} {node : Node} (h : t.nodes[n]? = some node) :
    t.node n = node := by
  rw [Tree.node, Array.getD_eq_getD_getElem?, h]
  rfl

theorem lt_size_of_parent {n p : Nat} (h : t.parent n = some p) : n < t.nodes.size := by
  by_contra outside
  rw [parent, node, Array.getD_eq_getD_getElem?,
    Array.getElem?_eq_none (Nat.le_of_not_lt outside)] at h
  cases h

/-! ### Links inside a layout -/

/-- The links down from a node lead to later nodes that link back to it. -/
def Linked (t : Tree) (n : Nat) : Prop :=
  ∀ c ∈ t.children n, n < c ∧ t.parent c = some n

mutual

theorem linked_of_holds : ∀ (base : Nat) (parent : Option Nat) (r : Rose SymbolId),
    t.Holds base (r.layout base parent) → ∀ n, base ≤ n → n < base + r.size → t.Linked n
  | base, parent, .node s cs, holds, n, lower, upper => by
      rw [Rose.layout] at holds
      obtain ⟨roots, inner⟩ := linked_of_holdsEach (base + 1) base cs holds.2
      by_cases top : n = base
      · subst top
        intro c hc
        rw [children, node_of_getElem? holds.1] at hc
        obtain ⟨after, -, up⟩ := roots c hc
        exact ⟨after, up⟩
      · rw [Rose.size_node_eq_sum] at upper
        exact inner n (by omega) (by omega)

theorem linked_of_holdsEach : ∀ (base owner : Nat) (cs : List (Rose SymbolId)),
    t.Holds base (Rose.layoutEach base owner cs) →
      (∀ c ∈ Rose.rootNumbers base cs,
        base ≤ c ∧ c < base + (cs.map Rose.size).sum ∧ t.parent c = some owner) ∧
      ∀ n, base ≤ n → n < base + (cs.map Rose.size).sum → t.Linked n
  | base, owner, [], _ => by
      refine ⟨fun c hc => absurd hc List.not_mem_nil, fun n lower upper => ?_⟩
      simp at upper
      omega
  | base, owner, .node s ds :: cs, holds => by
      obtain ⟨first, rest⟩ := holds_append_iff.mp holds
      rw [Rose.length_layout] at rest
      obtain ⟨roots, inner⟩ := linked_of_holdsEach _ owner cs rest
      have positive := Rose.size_pos (.node s ds)
      rw [List.map_cons, List.sum_cons]
      constructor
      · intro c hc
        rw [Rose.rootNumbers, List.mem_cons] at hc
        rcases hc with rfl | hc
        · refine ⟨Nat.le_refl _, by omega, ?_⟩
          rw [Rose.layout] at first
          rw [parent, node_of_getElem? first.1]
        · obtain ⟨lower, upper, up⟩ := roots c hc
          exact ⟨by omega, by omega, up⟩
      · intro n lower upper
        by_cases here : n < base + (Rose.node s ds).size
        · exact linked_of_holds base (some owner) (.node s ds) first n lower here
        · exact inner n (by omega) (by omega)

end

mutual

theorem parent_lt_of_holds : ∀ (base : Nat) (parent : Option Nat) (r : Rose SymbolId),
    t.Holds base (r.layout base parent) → ∀ n, base < n → n < base + r.size →
      ∃ p, t.parent n = some p ∧ p < n
  | base, parent, .node s cs, holds, n, lower, upper => by
      rw [Rose.layout] at holds
      rw [Rose.size_node_eq_sum] at upper
      exact parent_lt_of_holdsEach (base + 1) base cs holds.2 (Nat.lt_succ_self base) n
        (by omega) (by omega)

theorem parent_lt_of_holdsEach : ∀ (base owner : Nat) (cs : List (Rose SymbolId)),
    t.Holds base (Rose.layoutEach base owner cs) → owner < base → ∀ n, base ≤ n →
      n < base + (cs.map Rose.size).sum → ∃ p, t.parent n = some p ∧ p < n
  | base, owner, [], _, _, n, lower, upper => by
      simp at upper
      omega
  | base, owner, .node s ds :: cs, holds, before, n, lower, upper => by
      obtain ⟨first, rest⟩ := holds_append_iff.mp holds
      rw [Rose.length_layout] at rest
      rw [List.map_cons, List.sum_cons] at upper
      by_cases here : n < base + (Rose.node s ds).size
      · by_cases top : n = base
        · subst top
          rw [Rose.layout] at first
          exact ⟨owner, by rw [parent, node_of_getElem? first.1], before⟩
        · exact parent_lt_of_holds base (some owner) (.node s ds) first n (by omega) here
      · exact parent_lt_of_holdsEach _ owner cs rest (by omega) n (by omega) (by omega)

end

/-! ### Shapes of layouts -/

mutual

/-- Where a table holds the layout of a rose tree, the shape is that rose tree. -/
theorem shapeAt_of_holds : ∀ (base : Nat) (parent : Option Nat) (r : Rose SymbolId),
    t.Holds base (r.layout base parent) → t.shapeAt base = r
  | base, parent, .node s cs, holds => by
      have linked := linked_of_holds base parent (.node s cs) holds base (Nat.le_refl _)
        (Nat.lt_add_of_pos_right (Rose.size_pos _))
      rw [shapeAt_of_bounds fun c hc => ⟨(linked c hc).1, lt_size_of_parent (linked c hc).2⟩]
      rw [Rose.layout] at holds
      have each := map_shapeAt_of_holdsEach (base + 1) base cs holds.2
      rw [symbol, children, node_of_getElem? holds.1, each]

theorem map_shapeAt_of_holdsEach : ∀ (base owner : Nat) (cs : List (Rose SymbolId)),
    t.Holds base (Rose.layoutEach base owner cs) →
      (Rose.rootNumbers base cs).map t.shapeAt = cs
  | _, _, [], _ => rfl
  | base, owner, c :: cs, holds => by
      obtain ⟨first, rest⟩ := holds_append_iff.mp holds
      rw [Rose.length_layout] at rest
      rw [Rose.rootNumbers, List.map_cons, shapeAt_of_holds base (some owner) c first,
        map_shapeAt_of_holdsEach _ owner cs rest]

end

/-! ### The tree of a rose tree -/

theorem holds_ofShape (r : Rose SymbolId) : (ofShape r).Holds 0 (r.layout 0 none) :=
  holds_of_getElem? fun k _ => by simp [ofShape]

@[simp] theorem size_nodes_ofShape (r : Rose SymbolId) : (ofShape r).nodes.size = r.size := by
  simp [ofShape]

@[simp] theorem shape_ofShape (r : Rose SymbolId) : (ofShape r).shape = r :=
  shapeAt_of_holds 0 none r (holds_ofShape r)

/-- Beyond the table nothing is linked. -/
theorem children_eq_nil {n : Nat} (outside : t.nodes.size ≤ n) : t.children n = [] := by
  rw [children, node, Array.getD_eq_getD_getElem?, Array.getElem?_eq_none outside]
  rfl

theorem wellFormed_ofShape (r : Rose SymbolId) : (ofShape r).WellFormed := by
  have linked : ∀ n, (ofShape r).Linked n := by
    intro n c hc
    by_cases inside : n < r.size
    · exact linked_of_holds 0 none r (holds_ofShape r) n (Nat.zero_le n) (by omega) c hc
    · rw [children_eq_nil (by simpa using inside)] at hc
      cases hc
  have top : (ofShape r).parent (ofShape r).root = none := by
    cases r with
    | node s cs =>
        have holds := holds_ofShape (.node s cs)
        rw [Rose.layout] at holds
        rw [parent, root, node_of_getElem? holds.1]
  exact {
    nonempty := by simpa using r.size_pos
    root_parent := top
    child_bounds := fun n c hc => ⟨(linked n c hc).1, lt_size_of_parent (linked n c hc).2⟩
    child_parent := fun n c hc => (linked n c hc).2
    children_nodup := (Rose.children_layout_perm 0 none r).nodup_iff.mpr List.nodup_range'
    parent_lt := fun n p up => by
      have inside : n < r.size := by simpa using lt_size_of_parent up
      by_cases first : n = 0
      · subst first
        rw [show (ofShape r).parent 0 = none from top] at up
        cases up
      · obtain ⟨q, up', before⟩ := parent_lt_of_holds 0 none r (holds_ofShape r) n
          (by omega) (by omega)
        rw [up] at up'
        cases up'
        exact before }

theorem symbol_root_eq_label (t : Tree) : t.symbol t.root = t.shape.label :=
  (label_shapeAt t t.root).symm

end Tree

end GrammarEvolution
