import GrammarEvolution.Proofs.Grammar.Declaring
import GrammarEvolution.Proofs.Grammar.Derivation
import GrammarEvolution.Proofs.Grammar.Nodewise
import GrammarEvolution.Proofs.Tree.Reached
import Mathlib.Logic.Relation

/-!
Finished derivations as what expansion leads to.

`check` looks at a tree that is there. `Expands` is how such a tree comes about: one production is
carried out at one childless node, wherever that is. From the single node of a symbol, expansions in
any order lead to derivations under way, and to all of them.

* `Expands.underway`: an expansion keeps every node with children spelling a production.
* `grows_of_checkShape`: every derivation grows from its top symbol, one production at a time.
* `Grows.expands`: what grows as a shape can be expanded as a tree, however that is numbered.
* `check_iff_expanded`: a tree passes the check when expansions lead to its like and leave no
  non-terminal childless.
-/

namespace GrammarEvolution

open Relation (ReflTransGen)
open Rose (node)

namespace Grammar

variable {V : Type} {g : Grammar V} {t t' : Tree} {n : Nat}

/-- One derivation step: a production of the grammar is carried out at a node. -/
inductive Expands (g : Grammar V) : Tree → Tree → Prop where
  | step {t t' : Tree} {n : Nat} {p : Production} {fresh : List Nat} : n < t.nodes.size →
      p ∈ g.productions → g.expand t n p = .ok (fresh, t') → Expands g t t'

/-! ### What expansion keeps -/

/-- A derivation under way: what has been derived from a node spells a production. -/
structure Underway (g : Grammar V) (t : Tree) : Prop where
  wellFormed : t.WellFormed
  spelled : ∀ n, t.children n ≠ [] →
    g.isNonTerminal (t.symbol n) = true ∧ g.hasProduction (t.symbol n) (t.childSymbols n) = true

theorem underway_single (g : Grammar V) (s : SymbolId) : g.Underway (.single s) where
  wellFormed := Tree.wellFormed_ofShape (.node s [])
  spelled n h := by
    refine absurd ?_ h
    cases n with
    | zero => rfl
    | succ n => exact Tree.children_eq_nil (Nat.succ_le_succ (Nat.zero_le n))

/-- The children of the other nodes are old nodes, and these keep their symbols. -/
theorem childSymbols_pushChildren_of_ne {ss : List SymbolId} {k : Nat} (h : t.WellFormed)
    (inside : n < t.nodes.size) (differs : k ≠ n) :
    (t.pushChildren n ss).2.childSymbols k = t.childSymbols k := by
  rw [Tree.childSymbols, Tree.children_pushChildren inside, if_neg differs]
  exact List.map_congr_left fun c hc =>
    Tree.symbol_pushChildren inside (h.child_bounds k c hc).2

/-- An expansion keeps a derivation under way. -/
theorem Expands.underway (step : g.Expands t t') (rewriting : g.Rewriting) (h : g.Underway t) :
    g.Underway t' := by
  obtain @⟨n, p, fresh, inside, listed, expanded⟩ := step
  obtain ⟨same, leaf, pushed⟩ := Tree.expand_eq_ok_iff.mp expanded
  rw [Tree.isLeaf, List.isEmpty_iff] at leaf
  obtain rfl : (t.pushChildren n p.rhs).2 = t' := by rw [pushed]
  refine ⟨h.wellFormed.pushChildren inside p.rhs, fun k hk => ?_⟩
  by_cases here : k = n
  · subst here
    rw [Tree.symbol_pushChildren inside inside, Tree.childSymbols_pushChildren inside leaf, same]
    exact ⟨(rewriting p listed).1, Array.contains_iff_mem.mpr listed⟩
  · rw [Tree.children_pushChildren inside, if_neg here] at hk
    have old : k < t.nodes.size := Nat.lt_of_not_le fun outside =>
      hk (Tree.children_eq_nil outside)
    rw [Tree.symbol_pushChildren inside old,
      childSymbols_pushChildren_of_ne h.wellFormed inside here]
    exact h.spelled k hk

/-- Expansions keep a derivation under way. -/
theorem underway_of_expanded (rewriting : g.Rewriting) (steps : ReflTransGen g.Expands t t')
    (h : g.Underway t) : g.Underway t' := by
  induction steps with
  | refl => exact h
  | tail _ step ih => exact step.underway rewriting ih

/-- A derivation under way that leaves no non-terminal childless is finished. -/
theorem Underway.check (h : g.Underway t)
    (done : ∀ n ∈ t.preorder, t.isLeaf n = true → g.isNonTerminal (t.symbol n) = false) :
    g.check t = .ok () := by
  rw [check_eq_forM h.wellFormed, List.forM_eq_ok_iff]
  intro n hn
  rw [checkStep_ok_iff]
  cases leaf : t.isLeaf n with
  | true =>
      rw [done n hn leaf, Tree.childSymbols, List.isEmpty_iff.mp leaf]
      rfl
  | false =>
      have children : t.children n ≠ [] := fun none => by
        rw [Tree.isLeaf, none] at leaf
        cases leaf
      obtain ⟨kind, production⟩ := h.spelled n children
      rw [if_pos kind]
      exact production

/-- In a finished derivation, the childless nodes are the terminals. -/
theorem isLeaf_iff_of_check (rewriting : g.Rewriting) (h : t.WellFormed)
    (valid : g.check t = .ok ()) (hn : n ∈ t.preorder) :
    t.isLeaf n = true ↔ g.isNonTerminal (t.symbol n) = false := by
  rw [check_eq_forM h, List.forM_eq_ok_iff] at valid
  have step := checkStep_ok_iff.mp (valid n hn)
  rw [Tree.isLeaf, List.isEmpty_iff, ← List.map_eq_nil_iff (f := t.symbol), ← Tree.childSymbols]
  cases kind : g.isNonTerminal (t.symbol n) with
  | true =>
      rw [if_pos kind] at step
      constructor
      · intro none
        rw [none] at step
        exact absurd rfl (rewriting _ (Array.contains_iff_mem.mp step)).2
      · intro terminal
        cases terminal
  | false =>
      rw [if_neg (by simp [kind])] at step
      exact ⟨fun _ => rfl, fun _ => step⟩

/-! ### Growing a shape -/

/-- One derivation step on a rose tree: a childless node takes the right-hand side of a production
of its symbol. -/
inductive Grows (g : Grammar V) : Rose SymbolId → Rose SymbolId → Prop where
  | step {r : Rose SymbolId} {p : Production} (address : List Nat) : p ∈ g.productions →
      r.subtreeAt address = some (node p.lhs []) →
      Grows g r (r.replaceAt (node p.lhs (p.rhs.map fun s => node s [])) address)

/-- What grows below a node grows there with everything around it unchanged. -/
theorem Grows.below {r r' : Rose SymbolId} (step : g.Grows r r') (s : SymbolId)
    (before after : List (Rose SymbolId)) :
    g.Grows (node s (before ++ r :: after)) (node s (before ++ r' :: after)) := by
  obtain @⟨p, address, listed, here⟩ := step
  have slot : (node s (before ++ r :: after)).children[before.length]? = some r := by simp
  have grown := Grows.step (g := g) (before.length :: address) listed
    (Rose.subtreeAt_cons_eq_some_iff.mpr ⟨r, slot, here⟩)
  rw [Rose.replaceAt_cons slot] at grown
  simpa using grown

/-- Where every child grows from its own symbol, the node grows from its children's symbols. -/
theorem grows_children {cs : List (Rose SymbolId)} (s : SymbolId)
    (each : ∀ c ∈ cs, ReflTransGen g.Grows (node c.label []) c) (before : List (Rose SymbolId)) :
    ReflTransGen g.Grows (node s (before ++ cs.map fun c => node c.label []))
      (node s (before ++ cs)) := by
  induction cs generalizing before with
  | nil => exact .refl
  | cons c cs ih =>
      have first := (each c List.mem_cons_self).lift (fun r => node s
        (before ++ r :: cs.map fun c => node c.label [])) fun _ _ step => step.below s _ _
      have others := ih (fun d hd => each d (List.mem_cons_of_mem c hd)) (before ++ [c])
      rw [List.append_assoc, List.append_assoc] at others
      exact first.trans others

/-- **Every finished derivation grows from its top symbol.** -/
theorem grows_of_checkShape {r : Rose SymbolId} (valid : g.checkShape r = .ok ()) :
    ReflTransGen g.Grows (node r.label []) r := by
  induction r using Rose.induction with
  | step s cs ih =>
      obtain ⟨top, parts⟩ := checkShape_node_iff.mp valid
      by_cases none : cs = []
      · subst none
        exact .refl
      · have listed := (hasProduction_of_checkStep top (by simpa using none)).2
        have first := Grows.step (g := g) (r := node s []) []
          (Array.contains_iff_mem.mp listed) rfl
        rw [Rose.replaceAt_nil, List.map_map] at first
        exact .head first (grows_children s (fun c hc => ih c hc (parts c hc)) [])

/-! ### Expanding as a shape grows -/

/-- What stands at an address of the shape stands there in the tree. -/
theorem exists_standsAt {u : Rose SymbolId} {p : List Nat} (here : t.shape.subtreeAt p = some u) :
    ∃ n, t.StandsAt n p ∧ u = t.shapeAt n := by
  rw [Tree.shape, Tree.shapeAt, Rose.subtreeAt_map] at here
  obtain ⟨v, hv, rfl⟩ := Option.map_eq_some_iff.mp here
  have outlined := Tree.subtreeAt_outline hv
  exact ⟨v.label, hv.trans (congrArg some outlined), by rw [Tree.shapeAt, ← outlined]⟩

/-- What the shape can do, the tree can do. -/
theorem Grows.expands {r : Rose SymbolId} (step : g.Grows t.shape r) (h : t.WellFormed) :
    ∃ t', g.Expands t t' ∧ t'.WellFormed ∧ t'.shape = r := by
  obtain @⟨p, address, listed, here⟩ := step
  obtain ⟨n, hn, shape⟩ := exists_standsAt here
  have inside := h.lt_size_of_standsAt hn
  rw [h.shapeAt_eq, Rose.node.injEq] at shape
  obtain ⟨symbol, children⟩ := shape
  have leaf : t.children n = [] := List.map_eq_nil_iff.mp children.symm
  have expanded : g.expand t n p = .ok (t.pushChildren n p.rhs) :=
    Tree.expand_eq_ok_iff.mpr ⟨symbol.symm, by rw [Tree.isLeaf, leaf]; rfl, rfl⟩
  refine ⟨_, .step inside listed expanded, h.pushChildren inside p.rhs, ?_⟩
  rw [h.shape_pushChildren hn leaf, ← symbol]

/-- So trees can be expanded into whatever their shapes grow into. -/
theorem expanded_of_grows {r : Rose SymbolId} (steps : ReflTransGen g.Grows t.shape r)
    (h : t.WellFormed) :
    ∃ t', ReflTransGen g.Expands t t' ∧ t'.WellFormed ∧ t'.shape = r := by
  induction steps with
  | refl => exact ⟨t, .refl, h, rfl⟩
  | tail _ step ih =>
      obtain ⟨mid, steps, wellFormed, rfl⟩ := ih
      obtain ⟨t', last, wellFormed', shape⟩ := step.expands wellFormed
      exact ⟨t', steps.tail last, wellFormed', shape⟩

/-- **A check accepts what expansion makes.** A tree passes when expansions in some order lead from
the single node of its top symbol to a tree like it and leave no non-terminal childless. Its
childless nodes are then the terminals, and its other nodes the non-terminals. -/
theorem check_iff_expanded (built : g.Built) (h : t.WellFormed) :
    (g.check t = .ok () ↔ ∃ t', ReflTransGen g.Expands (.single (t.symbol t.root)) t' ∧
      (t' == t) = true ∧
      ∀ n ∈ t'.preorder, t'.isLeaf n = true → g.isNonTerminal (t'.symbol n) = false) ∧
    (g.check t = .ok () → ∀ n ∈ t.preorder,
      t.isLeaf n = true ↔ g.isNonTerminal (t.symbol n) = false) := by
  have rewriting := built.rewriting
  refine ⟨⟨fun valid => ?_, ?_⟩, fun valid n hn => isLeaf_iff_of_check rewriting h valid hn⟩
  · have single : (Tree.single (t.symbol t.root)).shape = node t.shape.label [] := by
      rw [← Tree.symbol_root_eq_label]
      exact Tree.shape_ofShape (.node (t.symbol t.root) [])
    have grows := grows_of_checkShape valid
    rw [← single] at grows
    obtain ⟨t', steps, wellFormed, shape⟩ := expanded_of_grows grows
      (Tree.wellFormed_ofShape (.node (t.symbol t.root) []))
    have valid' : g.check t' = .ok () := by rw [check, shape, ← check, valid]
    refine ⟨t', steps, Tree.beq_iff.mpr shape, fun n hn leaf => ?_⟩
    exact (isLeaf_iff_of_check rewriting wellFormed valid' hn).mp leaf
  · rintro ⟨t', steps, alike, done⟩
    have finished := (underway_of_expanded rewriting steps (underway_single g _)).check done
    rw [check, ← Tree.beq_iff.mp alike]
    exact finished

/-- A pair of pairs. The second was entered before the first, and node 5 is on nobody's list. -/
def scattered : Tree :=
  ⟨#[⟨0, none, [2, 1]⟩, ⟨0, some 0, [4]⟩, ⟨0, some 0, [3]⟩, ⟨1, some 2, []⟩, ⟨1, some 1, []⟩,
    ⟨0, some 1, []⟩]⟩

/-- It comes about by expansion, though not with these numbers. -/
theorem check_scattered :
    pairs.Built ∧ scattered.WellFormed ∧ pairs.check scattered = .ok () ∧
      (∃ t', ReflTransGen pairs.Expands (.single 0) t' ∧ (t' == scattered) = true ∧
        ∀ n ∈ t'.preorder, t'.isLeaf n = true → pairs.isNonTerminal (t'.symbol n) = false) ∧
      ∀ n ∈ scattered.preorder,
        scattered.isLeaf n = true ↔ pairs.isNonTerminal (scattered.symbol n) = false := by
  have wellFormed : scattered.WellFormed := by decide
  have valid : pairs.check scattered = .ok () := by decide +kernel
  obtain ⟨expanded, leaves⟩ := check_iff_expanded pairs_built wellFormed
  exact ⟨pairs_built, wellFormed, valid, expanded.mp valid, leaves valid⟩

end Grammar

end GrammarEvolution
