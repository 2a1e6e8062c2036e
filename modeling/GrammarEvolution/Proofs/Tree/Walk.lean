import GrammarEvolution.Proofs.Tree.Layout

/-!
Walks over a tree, with nothing to bound them.

The measures of a tree are folds over outlines, where a link is followed only if it leads to a later
node of the table. A walk that follows every link, however it runs, need not end on an arbitrary
table. `Visits` is the walk down with a stack of nodes still to come, `Climbs` the walk up.

* `WellFormed.visits`, `WellFormed.climbs`: on a well-formed tree both end, and with the results
  of the folds.
* `WellFormed.wellFounded_children`: so does every recursion from nodes to their children, whatever
  it computes.
* `WellFormed.heightAt_eq`, `WellFormed.sizeAt_eq`: the recursions that compute the measures.
-/

namespace GrammarEvolution

namespace Tree

variable {t : Tree}

/-- A walk down: the topmost node of the stack is visited, and its children take its place, the
first of them on top. The last argument lists the nodes in the order of their visits. -/
inductive Visits (t : Tree) : List Nat → List Nat → Prop
  | done : Visits t [] []
  | visit {n : Nat} {stack order : List Nat} :
      Visits t (t.children n ++ stack) order → Visits t (n :: stack) (n :: order)

/-- A walk up, and the number of links it follows. -/
inductive Climbs (t : Tree) : Nat → Nat → Prop
  | top {n : Nat} : t.parent n = none → Climbs t n 0
  | up {n p k : Nat} : t.parent n = some p → Climbs t p k → Climbs t n (k + 1)

namespace WellFormed

variable (h : t.WellFormed)

include h

theorem heightAt_eq (n : Nat) :
    t.heightAt n = ((t.children n).map fun c => t.heightAt c + 1).foldl max 0 := by
  rw [heightAt, h.outline_eq, Rose.height_node, List.map_map]
  rfl

theorem sizeAt_eq (n : Nat) : t.sizeAt n = ((t.children n).map t.sizeAt).sum + 1 := by
  rw [sizeAt, h.outline_eq, Rose.size_node_eq_sum, List.map_map]
  rfl

/-- A node on top of the stack adds the nodes of its outline to the visits. -/
theorem visits_cons (n : Nat) {stack order : List Nat} (rest : Visits t stack order) :
    Visits t (n :: stack) ((t.outline n).preorder ++ order) := by
  induction n using h.wellFounded_children.induction generalizing stack order with
  | _ n ih =>
      rw [h.outline_eq, Rose.preorder_node, List.flatMap_map, List.cons_append]
      refine .visit ?_
      generalize t.children n = cs at ih
      induction cs with
      | nil => exact rest
      | cons c cs each =>
          rw [List.cons_append, List.flatMap_cons, List.append_assoc]
          exact ih c List.mem_cons_self
            (each fun d hd => ih d (List.mem_cons_of_mem c hd))

/-- The walk down from the root visits what the root reaches, a node before its children. -/
theorem visits : Visits t [t.root] t.preorder := by
  have walk := h.visits_cons t.root .done
  rwa [List.append_nil] at walk

/-- The walk up from any node follows as many links as the node is deep. -/
theorem climbs (n : Nat) : Climbs t n (t.depth n) := by
  induction n using Nat.strong_induction_on with
  | _ n ih =>
      rw [depth]
      cases link : t.parent n with
      | none => exact .top link
      | some p =>
          have before := h.parent_lt n p link
          simp only [dif_pos before]
          exact .up link (ih p before)

end WellFormed

end Tree

end GrammarEvolution
