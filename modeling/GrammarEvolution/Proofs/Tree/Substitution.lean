import GrammarEvolution.Proofs.Tree.Reached

/-!
Splicing as substitution.

A splice says where it takes place by a node, and a substitution by an address. For every tree that
calls lead to, the two agree at the address of the node, whatever else the table holds, and the
table that is left is numbered in pre-order.

* `preorder_ofShape`: the tree made of a rose tree is numbered as it is walked.
* `splices_substitute`: both splices succeed at every node that the root reaches through another.
-/

namespace GrammarEvolution

namespace Rose

variable {α : Type}

theorem length_preorder (r : Rose α) : r.preorder.length = r.size := by
  induction r using Rose.induction with
  | step a cs ih =>
      rw [preorder_node, size_node_eq_sum, List.length_cons, List.length_flatMap]
      exact congrArg (·.sum + 1) (List.map_congr_left ih)

end Rose

namespace Tree

variable {t u : Tree} {a : Nat} {p : List Nat} {r : Rose SymbolId}

/-! ### Numbering -/

mutual

/-- A layout is walked in the order of its numbers. -/
theorem preorder_outline_of_holds : ∀ (base : Nat) (parent : Option Nat) (r : Rose SymbolId),
    t.Holds base (r.layout base parent) →
      (t.outline base).preorder = List.range' base r.size
  | base, parent, .node s cs, holds => by
      have linked := linked_of_holds base parent (.node s cs) holds base (Nat.le_refl _)
        (Nat.lt_add_of_pos_right (Rose.size_pos _))
      rw [outline_of_bounds fun c hc => ⟨(linked c hc).1, lt_size_of_parent (linked c hc).2⟩]
      rw [Rose.layout] at holds
      have each := preorder_outline_of_holdsEach (base + 1) base cs holds.2
      rw [children, node_of_getElem? holds.1, Rose.preorder_node, List.flatMap_map, each,
        Rose.size_node_eq_sum, List.range'_succ]

theorem preorder_outline_of_holdsEach : ∀ (base owner : Nat) (cs : List (Rose SymbolId)),
    t.Holds base (Rose.layoutEach base owner cs) →
      (Rose.rootNumbers base cs).flatMap (fun c => (t.outline c).preorder) =
        List.range' base (cs.map Rose.size).sum
  | _, _, [], _ => rfl
  | base, owner, c :: cs, holds => by
      obtain ⟨first, rest⟩ := holds_append_iff.mp holds
      rw [Rose.length_layout] at rest
      rw [Rose.rootNumbers, List.flatMap_cons, preorder_outline_of_holds base (some owner) c first,
        preorder_outline_of_holdsEach _ owner cs rest, List.map_cons, List.sum_cons,
        List.range'_append_1]

end

theorem preorder_ofShape (r : Rose SymbolId) : (ofShape r).preorder = List.range r.size := by
  rw [List.range_eq_range']
  exact preorder_outline_of_holds 0 none r (holds_ofShape r)

theorem size_ofShape (r : Rose SymbolId) : (ofShape r).size = r.size := by
  have walk := Rose.length_preorder ((ofShape r).outline (ofShape r).root)
  rw [← preorder, preorder_ofShape, List.length_range] at walk
  exact walk.symm

/-! ### Splices -/

/-- `t'` means `t` with `r` in place of the subtree at `p`. Its table holds nothing but that tree,
and node `i` is the `i`-th node of the walk over it. -/
structure Substituted (t : Tree) (p : List Nat) (r : Rose SymbolId) (t' : Tree) : Prop where
  shape : t'.shape = t.shape.replaceAt r p
  full : t'.nodes.size = t'.size
  inOrder : t'.preorder = List.range t'.nodes.size

theorem substituted_ofShape (t : Tree) (p : List Nat) (r : Rose SymbolId) :
    Substituted t p r (ofShape (t.shape.replaceAt r p)) where
  shape := shape_ofShape _
  full := by rw [size_nodes_ofShape, size_ofShape]
  inOrder := by rw [preorder_ofShape, size_nodes_ofShape]

/-- **Splicing is substitution.** Let `t` and `u` be trees that calls lead to, and `a` a node of `t`
other than the root that the root reaches. Replacing at `a` succeeds and puts `u` where `a` stands.
Exchanging `a` with such a node of `u` succeeds and puts into each tree what stood in the other.
Both are the outcome of their steps, node by node on tables that still hold the old subtrees. -/
theorem splices_substitute {ts : List Tree} (reached : Reached ts) (ht : t ∈ ts) (hu : u ∈ ts)
    (ha : a ∈ t.preorder) (notRoot : a ≠ t.root) :
    ∃ p v, t.StandsAt a p ∧ t.shape.subtreeAt p = some v ∧
      (∃ t', t.replace a u = .ok t' ∧ Replaces t a u t' ∧ Substituted t p u.shape t') ∧
      ∀ b ∈ u.preorder, b ≠ u.root → ∃ q w, u.StandsAt b q ∧ u.shape.subtreeAt q = some w ∧
        ∃ t' u', t.swap a u b = .ok (t', u') ∧ Exchanges t a u b t' u' ∧
          Substituted t p w t' ∧ Substituted u q v u' := by
  have wfT := reached.wellFormed t ht
  have wfU := reached.wellFormed u hu
  obtain ⟨p, standsA⟩ := mem_preorder_iff_standsAt.mp ha
  refine ⟨p, t.shapeAt a, standsA, standsA.subtreeAt_shape, ?_, fun b hb otherNotRoot => ?_⟩
  · have replaced := wfT.replace_eq standsA notRoot u
    exact ⟨_, replaced, (wfT.replaces_iff wfU).mpr replaced, substituted_ofShape t p u.shape⟩
  · obtain ⟨q, standsB⟩ := mem_preorder_iff_standsAt.mp hb
    have swapped := wfT.swap_eq wfU standsA standsB notRoot otherNotRoot
    exact ⟨q, u.shapeAt b, standsB, standsB.subtreeAt_shape, _, _, swapped,
      (wfT.exchanges_iff wfU).mpr swapped, substituted_ofShape t p _, substituted_ofShape u q _⟩

/-- The copy that node 1 has not taken in does not stand in the way: nested in its place, or given
up for a leaf of the other tree. -/
theorem splices_forks :
    Reached [fork, forkWithSpare] ∧ 1 ∈ forkWithSpare.preorder ∧ 2 ∈ fork.preorder ∧
      forkWithSpare.replace 1 fork = .ok ⟨#[⟨0, none, [1, 4]⟩, ⟨0, some 0, [2, 3]⟩,
        ⟨1, some 1, []⟩, ⟨2, some 1, []⟩, ⟨2, some 0, []⟩]⟩ ∧
      ∃ t' u', forkWithSpare.swap 1 fork 2 = .ok (t', u') ∧
        Exchanges forkWithSpare 1 fork 2 t' u' ∧
        Substituted forkWithSpare [0] (.node 2 []) t' ∧ Substituted fork [1] (.node 1 []) u' := by
  have here : 1 ∈ forkWithSpare.preorder := by
    rw [show forkWithSpare.preorder = [0, 1, 2] by cbv]
    decide
  have there : 2 ∈ fork.preorder := by
    rw [show fork.preorder = [0, 1, 2] by cbv]
    decide
  obtain ⟨p, v, standsA, atA, -, exchange⟩ := splices_substitute reached_forks
    (List.mem_cons_of_mem _ List.mem_cons_self) List.mem_cons_self here (by decide)
  obtain ⟨q, w, standsB, atB, t', u', swapped, steps, first, second⟩ :=
    exchange 2 there (by decide)
  obtain rfl := (reached_forks.wellFormed forkWithSpare (by simp)).standsAt_unique
    (q := [0]) standsA (by unfold StandsAt; cbv)
  obtain rfl := (reached_forks.wellFormed fork (by simp)).standsAt_unique
    (q := [1]) standsB (by unfold StandsAt; cbv)
  rw [show forkWithSpare.shape.subtreeAt [0] = some (.node 1 []) by cbv] at atA
  rw [show fork.shape.subtreeAt [1] = some (.node 2 []) by cbv] at atB
  cases atA
  cases atB
  exact ⟨reached_forks, here, there, by cbv, t', u', swapped, steps, first, second⟩

end Tree

end GrammarEvolution
