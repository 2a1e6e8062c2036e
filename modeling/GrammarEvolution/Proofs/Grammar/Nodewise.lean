import GrammarEvolution.Grammar.Derivation
import GrammarEvolution.Grammar.Evaluation
import GrammarEvolution.Grammar.Written
import GrammarEvolution.Proofs.Tree.Frame
import GrammarEvolution.Proofs.Tree.Walk

/-!
Readings of a tree, node by node.

What is read off a tree is a fold over its shape. On a well-formed tree each reading is also a walk
over numbered nodes: a pass over what the root reaches, or a recursion from a node to its children.

* `shapeAt_eq_iff`: the comparison of two trees from node to node.
* `Grammar.nodewise`: the recursion over nodes behind every reading.
-/

namespace GrammarEvolution

namespace Rose

variable {α : Type}

/-- The childless nodes are met in the order of the walk. -/
theorem leafLabels_eq (t : Rose α) :
    t.leafLabels = (t.subtrees.filter fun u => u.children.isEmpty).map label := by
  induction t using Rose.induction with
  | step a cs ih =>
      rw [leafLabels_node, subtrees_node]
      cases empty : cs.isEmpty with
      | true =>
          rw [List.isEmpty_iff] at empty
          subst empty
          rfl
      | false =>
          rw [List.filter_cons_of_neg (by simp [empty]), List.filter_flatMap, List.map_flatMap]
          exact List.flatMap_congr ih

end Rose

namespace Tree

variable {t u : Tree}

theorem beq_iff {t u : Tree} : (t == u) = true ↔ t.shape = u.shape :=
  decide_eq_true_iff

/-- Two nodes have the same shape when they hold the same symbol and have, in order, children of the
same shapes. -/
theorem shapeAt_eq_iff (ht : t.WellFormed) (hu : u.WellFormed) {n m : Nat} :
    t.shapeAt n = u.shapeAt m ↔ t.symbol n = u.symbol m ∧
      List.Forall₂ (fun c d => t.shapeAt c = u.shapeAt d) (t.children n) (u.children m) := by
  rw [ht.shapeAt_eq, hu.shapeAt_eq, Rose.node.injEq]
  refine and_congr_right fun _ => ?_
  rw [← List.forall₂_eq_eq_eq, List.forall₂_map_left_iff, List.forall₂_map_right_iff]

theorem children_isEmpty_shapeAt (h : t.WellFormed) (n : Nat) :
    (t.shapeAt n).children.isEmpty = t.isLeaf n := by
  rw [h.shapeAt_eq, Rose.children_node, List.isEmpty_map, isLeaf]

end Tree

namespace Grammar

variable {V : Type} {g : Grammar V} {t : Tree}

/-- How a tree is read from node to node. A check, and the listing of leaves, pass over the nodes in
the order of the walk; all else works a node out from its children. -/
structure Nodewise (g : Grammar V) (t : Tree) : Prop where
  check : g.check t = t.preorder.forM fun n => g.checkStep (t.symbol n) (t.childSymbols n)
  leaves : g.leaves t =
    String.join ((t.preorder.filter t.isLeaf).map fun n => g.name (t.symbol n))
  eval : ∀ bindings n, g.evalAt bindings t n = g.evalStep bindings (t.symbol n)
    ((t.children n).map fun c => (t.shapeAt c, g.evalAt bindings t c))
  display : ∀ n, g.displayAt t n = g.displayStep (t.symbol n)
    ((t.children n).map fun c => (t.shapeAt c, g.displayAt t c))
  derivation : ∀ n, g.derivationShape (t.shapeAt n) =
    if t.isLeaf n then g.name (t.symbol n)
    else g.name (t.symbol n) ++ "(" ++
      String.intercalate " " ((t.children n).map fun c => g.derivationShape (t.shapeAt c)) ++ ")"
  height : ∀ n, t.heightAt n = ((t.children n).map fun c => t.heightAt c + 1).foldl max 0
  size : ∀ n, t.sizeAt n = ((t.children n).map t.sizeAt).sum + 1

/-- A check passes over the nodes that the root reaches. -/
theorem check_eq_forM (h : t.WellFormed) :
    g.check t = t.preorder.forM fun n => g.checkStep (t.symbol n) (t.childSymbols n) := by
  rw [Grammar.check, checkShape, Tree.subtrees_shape, List.forM_eq_forM, List.forM_map]
  simp only [Tree.label_shapeAt, h.labels_shapeAt, List.forM_eq_forM]

/-- **Every reading of a well-formed tree goes from node to node**, whatever the numbers are. -/
theorem nodewise (h : t.WellFormed) (g : Grammar V) : g.Nodewise t where
  check := check_eq_forM h
  leaves := by
    rw [leaves, Rose.leafLabels_eq, Tree.subtrees_shape, List.filter_map, List.map_map,
      List.map_map]
    simp only [Function.comp_def, Tree.children_isEmpty_shapeAt h, Tree.label_shapeAt]
  eval bindings n := by
    rw [evalAt, evalShape, h.shapeAt_eq, Rose.fold_node, List.map_map]
    rfl
  display n := by
    rw [displayAt, displayShape, h.shapeAt_eq, Rose.fold_node, List.map_map]
    rfl
  derivation n := by
    rw [h.shapeAt_eq, derivationShape, Rose.fold_node, List.map_map, List.isEmpty_map, Tree.isLeaf,
      List.map_map]
    rfl
  height := h.heightAt_eq
  size := h.sizeAt_eq

end Grammar

end GrammarEvolution
