import GrammarEvolution.Grammar.Derivation
import GrammarEvolution.Proofs.Tree.Splice

/-!
Finished derivations, step by step.

* `checkShape_node_iff`: a tree is a derivation when its top step is one and the children are.
* `checkStep_ok_iff`: what a step may be.
* `checkShape_replaceAt`: a derivation put in place of a subtree leaves a derivation when its top
  symbol is legal in the step above.
-/

namespace GrammarEvolution

open Rose (node)

namespace Grammar

variable {V : Type} {g : Grammar V}

theorem checkShape_iff {r : Rose SymbolId} :
    g.checkShape r = .ok () ↔
      ∀ u ∈ r.subtrees, g.checkStep u.label (u.children.map Rose.label) = .ok () :=
  List.forM_eq_ok_iff _ _

/-- A tree is a derivation when its top step is one and its children are derivations. -/
theorem checkShape_node_iff {s : SymbolId} {cs : List (Rose SymbolId)} :
    g.checkShape (node s cs) = .ok () ↔
      g.checkStep s (cs.map Rose.label) = .ok () ∧ ∀ c ∈ cs, g.checkShape c = .ok () := by
  simp only [checkShape_iff, Rose.subtrees_node, List.forall_mem_cons, List.mem_flatMap,
    Rose.label_node, Rose.children_node]
  refine and_congr_right fun _ => ⟨fun h c hc u hu => h u ⟨c, hc, hu⟩, ?_⟩
  rintro h u ⟨c, hc, hu⟩
  exact h c hc u hu

/-- Every part of a derivation is a derivation. -/
theorem checkShape_subtreeAt {r u : Rose SymbolId} {p : List Nat} (h : g.checkShape r = .ok ())
    (hu : r.subtreeAt p = some u) : g.checkShape u = .ok () := by
  induction p generalizing r with
  | nil =>
      cases hu
      exact h
  | cons i p ih =>
      obtain ⟨c, hi, hc⟩ := Rose.subtreeAt_cons_eq_some_iff.mp hu
      cases r with
      | node s cs => exact ih ((checkShape_node_iff.mp h).2 c (List.mem_of_getElem? hi)) hc

/-- A non-terminal stands above one of its right-hand sides, anything else above nothing. -/
theorem checkStep_ok_iff {s : SymbolId} {below : List SymbolId} :
    g.checkStep s below = .ok () ↔
      if g.isNonTerminal s then g.hasProduction s below = true else below = [] := by
  rw [checkStep]
  by_cases nonTerminal : g.isNonTerminal s = true
  · cases g.hasProduction s below <;>
      simp [nonTerminal, pure, Except.pure, throw, throwThe, MonadExceptOf.throw]
  · cases below <;>
      simp [nonTerminal, pure, Except.pure, throw, throwThe, MonadExceptOf.throw]

/-- Only a non-terminal has children in a derivation, and they spell one of its productions. -/
theorem hasProduction_of_checkStep {s : SymbolId} {below : List SymbolId}
    (h : g.checkStep s below = .ok ()) (children : below ≠ []) :
    g.isNonTerminal s = true ∧ g.hasProduction s below = true := by
  rw [checkStep_ok_iff] at h
  split at h
  · exact ⟨‹_›, h⟩
  · exact absurd h children

/-- Putting a derivation in place of a subtree leaves a derivation when the step above allows its
top symbol there. -/
theorem checkShape_replaceAt {t v r : Rose SymbolId} {p : List Nat} {i : Nat}
    (ht : g.checkShape t = .ok ()) (hv : t.subtreeAt p = some v) (hr : g.checkShape r = .ok ())
    (inside : i < v.children.length)
    (step : g.checkStep v.label ((v.children.map Rose.label).set i r.label) = .ok ()) :
    g.checkShape (t.replaceAt r (p ++ [i])) = .ok () := by
  induction p generalizing t with
  | nil =>
      obtain rfl : t = v := Option.some.inj hv
      rw [List.nil_append, Rose.replaceAt_cons (List.getElem?_eq_getElem inside),
        checkShape_node_iff, List.map_set]
      refine ⟨step, fun c hc => ?_⟩
      rcases List.mem_or_eq_of_mem_set hc with hc | rfl
      · cases t with
        | node s cs => exact (checkShape_node_iff.mp ht).2 c hc
      · exact hr
  | cons j p ih =>
      obtain ⟨c, hj, hc⟩ := Rose.subtreeAt_cons_eq_some_iff.mp hv
      cases t with
      | node s cs =>
          obtain ⟨top, each⟩ := checkShape_node_iff.mp ht
          rw [List.cons_append, Rose.replaceAt_cons hj, checkShape_node_iff, List.map_set,
            Rose.label_replaceAt (by simp), Rose.label_node, Rose.children_node]
          -- The step at the top is the old one, as the child there keeps its label.
          have same : (cs.map Rose.label).set j c.label = cs.map Rose.label := by
            obtain ⟨bound, rfl⟩ := List.getElem?_eq_some_iff.mp hj
            rw [← List.map_set]
            simp
          refine ⟨by rw [same]; exact top, fun d hd => ?_⟩
          rcases List.mem_or_eq_of_mem_set hd with hd | rfl
          · exact each d hd
          · exact ih (each c (List.mem_of_getElem? hj)) hc

@[simp] theorem check_ofShape (r : Rose SymbolId) :
    g.check (Tree.ofShape r) = g.checkShape r := by
  rw [check, Tree.shape_ofShape]

/-- What stands in a derivation is a derivation. -/
theorem checkShape_shapeAt {t : Tree} {n : Nat} {p : List Nat} (h : g.check t = .ok ())
    (hn : t.StandsAt n p) : g.checkShape (t.shapeAt n) = .ok () :=
  checkShape_subtreeAt h hn.subtreeAt_shape

/-- A finished derivation from `start`, no higher than `depth`. -/
structure Admits (g : Grammar V) (start : SymbolId) (depth : Nat) (t : Tree) : Prop where
  wellFormed : t.WellFormed
  root : t.symbol t.root = start
  valid : g.check t = .ok ()
  height : t.height ≤ depth

/-- A population: so many such derivations. -/
structure Populates (g : Grammar V) (start : SymbolId) (depth size : Nat) (trees : List Tree) :
    Prop where
  length : trees.length = size
  admits : ∀ t ∈ trees, g.Admits start depth t

end Grammar

end GrammarEvolution
