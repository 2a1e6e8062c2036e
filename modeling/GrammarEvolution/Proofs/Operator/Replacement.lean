import GrammarEvolution.Operator.Basic
import GrammarEvolution.Proofs.Grammar.Built
import GrammarEvolution.Proofs.Grammar.Derivation
import GrammarEvolution.Proofs.Tree.Splice

/-!
What may stand in place of a node.

`MayStand` says it in terms of the step above the node: the parent's symbol has a production spelled
by its children, with another symbol in the node's place. In a derivation, planting a derivation
whose root may stand at a node gives a derivation again.

* `mem_replacementSymbols_iff`: the symbols that operators look for are those that may stand.
* `mayStand_symbol`: in a derivation, what stands at a node may stand there.
* `offspring_of_mayStand`: a legal replacement keeps validity, the root and the bound on the height.
-/

namespace GrammarEvolution

namespace Grammar

variable {V : Type} {g : Grammar V} {t : Tree} {n m i : Nat} {p : List Nat} {s : SymbolId}

/-- The step above node `n` may have `s` in its place. -/
def MayStand (g : Grammar V) (t : Tree) (n : Nat) (s : SymbolId) : Prop :=
  ∃ m i, (t.children m)[i]? = some n ∧
    g.hasProduction (t.symbol m) ((t.childSymbols m).set i s) = true

/-- A node is a child in one place only. -/
theorem mayStand_iff (ht : t.WellFormed) (hi : (t.children m)[i]? = some n) :
    g.MayStand t n s ↔ g.hasProduction (t.symbol m) ((t.childSymbols m).set i s) = true := by
  constructor
  · rintro ⟨m', i', hi', legal⟩
    have position := (ht.position_eq hi').symm.trans (ht.position_eq hi)
    obtain ⟨rfl, rfl⟩ := Prod.mk.inj (Except.ok.inj position)
    exact legal
  · exact fun legal => ⟨m, i, hi, legal⟩

/-! ### Positions -/

theorem mem_nonRootNodes_iff {keep : SymbolId → Bool} : n ∈ t.nonRootNodes keep ↔
    (∃ p, t.StandsAt n p) ∧ n ≠ t.root ∧ keep (t.symbol n) = true := by
  unfold Tree.nonRootNodes
  rw [List.mem_filter, decide_eq_true_iff, Tree.mem_preorder_iff_standsAt]

theorem lt_length_childSymbols (hi : (t.children m)[i]? = some n) :
    i < (t.childSymbols m).length := by
  rw [Tree.childSymbols, List.length_map]
  exact (List.getElem?_eq_some_iff.mp hi).1

/-! ### Symbols that may stand -/

/-- A right-hand side is like another but at one place when it is the other with its own symbol
there. -/
theorem alikeBut_iff {rhs current : List SymbolId} (here : rhs[i]? = some s) :
    alikeBut i rhs current = true ↔ current.set i s = rhs := by
  obtain ⟨inside, rfl⟩ := List.getElem?_eq_some_iff.mp here
  unfold alikeBut
  rw [beq_iff_eq]
  constructor
  · intro alike
    calc current.set i rhs[i] = (current.set i 0).set i rhs[i] := (List.set_set ..).symm
      _ = rhs := by rw [← alike, List.set_set, List.set_getElem_self]
  · intro same
    rw [← same, List.set_set]

/-- **The symbols that operators look for** are those that may stand, and they are always found. -/
theorem mem_replacementSymbols_iff (ht : t.WellFormed) (hn : t.StandsAt n p)
    (notRoot : n ≠ t.root) :
    ∃ legal, g.replacementSymbols t n = .ok legal ∧ ∀ s, s ∈ legal ↔ g.MayStand t n s := by
  obtain ⟨m, i, q, rfl, -, hi, position⟩ := ht.exists_position hn notRoot
  unfold replacementSymbols
  rw [position]
  refine ⟨_, rfl, ?_⟩
  intro s
  rw [mayStand_iff ht hi, hasProduction_iff, List.mem_eraseDups]
  simp only [List.mem_filterMap, List.mem_filter, List.mem_map]
  constructor
  · rintro ⟨rhs, ⟨⟨p, hp, rfl⟩, alike⟩, here⟩
    exact ⟨p, hp, ((alikeBut_iff here).mp alike).symm⟩
  · rintro ⟨p, hp, spelled⟩
    have here : ((t.childSymbols m).set i s)[i]? = some s :=
      List.getElem?_set_self (lt_length_childSymbols hi)
    exact ⟨_, ⟨⟨p, hp, spelled⟩, (alikeBut_iff here).mpr rfl⟩, here⟩

/-! ### Derivations -/

/-- In a derivation, the children of a node spell a production of its symbol. -/
theorem step_of_check (ht : t.WellFormed) (valid : g.check t = .ok ()) (hm : t.StandsAt m p)
    (hi : (t.children m)[i]? = some n) :
    g.isNonTerminal (t.symbol m) = true ∧
      g.hasProduction (t.symbol m) (t.childSymbols m) = true := by
  have top : t.shapeAt m ∈ (t.shapeAt m).subtrees := Rose.mem_subtrees_iff.mpr ⟨[], rfl⟩
  have step := checkShape_iff.mp (checkShape_shapeAt valid hm) _ top
  rw [Tree.label_shapeAt, ht.labels_shapeAt] at step
  refine hasProduction_of_checkStep step fun none => ?_
  rw [Tree.childSymbols, List.map_eq_nil_iff] at none
  rw [none] at hi
  cases hi

/-- What stands at a node of a derivation may stand there. -/
theorem mayStand_symbol (ht : t.WellFormed) (valid : g.check t = .ok ()) (hn : t.StandsAt n p)
    (notRoot : n ≠ t.root) : g.MayStand t n (t.symbol n) := by
  obtain ⟨m, i, q, rfl, hm, hi, -⟩ := ht.exists_position hn notRoot
  have same : (t.childSymbols m).set i (t.symbol n) = t.childSymbols m := by
    obtain ⟨inside, rfl⟩ := List.getElem?_eq_some_iff.mp hi
    rw [Tree.childSymbols, ← List.map_set, List.set_getElem_self]
  refine ⟨m, i, hi, ?_⟩
  rw [same]
  exact (step_of_check ht valid hm hi).2

/-- What an operator makes of a parent: the parent with `r` in place of the subtree at node `n`,
again a derivation with the same root, and no higher than the parent or a bound. -/
structure Offspring (g : Grammar V) (maxDepth : Nat) (t : Tree) (n : Nat) (p : List Nat)
    (r : Rose SymbolId) (o : Tree) : Prop where
  stands : t.StandsAt n p
  notRoot : n ≠ t.root
  wellFormed : o.WellFormed
  shape : o.shape = t.shape.replaceAt r p
  root : o.symbol o.root = t.symbol t.root
  valid : g.check o = .ok ()
  height : o.height ≤ max t.height maxDepth

/-- **A legal replacement makes offspring.** -/
theorem offspring_of_mayStand {r : Rose SymbolId} (maxDepth : Nat) (ht : t.WellFormed)
    (valid : g.check t = .ok ()) (hn : t.StandsAt n p) (notRoot : n ≠ t.root)
    (hr : g.checkShape r = .ok ()) (legal : g.MayStand t n r.label)
    (depth : t.depth n + r.height ≤ max t.height maxDepth) :
    g.Offspring maxDepth t n p r (Tree.ofShape (t.shape.replaceAt r p)) where
  stands := hn
  notRoot := notRoot
  wellFormed := Tree.wellFormed_ofShape _
  shape := Tree.shape_ofShape _
  root := by
    have below : p ≠ [] := by
      rintro rfl
      exact notRoot (Tree.standsAt_nil_iff.mp hn)
    rw [Tree.symbol_root_eq_label, Tree.shape_ofShape, Rose.label_replaceAt below,
      Tree.symbol_root_eq_label]
  valid := by
    obtain ⟨m, i, q, rfl, hm, hi, -⟩ := ht.exists_position hn notRoot
    have step := (step_of_check ht valid hm hi).1
    rw [check_ofShape]
    refine checkShape_replaceAt valid hm.subtreeAt_shape hr ?_ ?_
    · rw [ht.shapeAt_eq, Rose.children_node, List.length_map]
      exact (List.getElem?_eq_some_iff.mp hi).1
    · rw [Tree.label_shapeAt, ht.labels_shapeAt, checkStep_ok_iff, if_pos step]
      exact (mayStand_iff ht hi).mp legal
  height := by
    have reaches := Rose.height_replaceAt_le hn.subtreeAt_shape r
    rw [← ht.depth_eq hn, Tree.height_shape] at reaches
    rw [← Tree.height_shape, Tree.shape_ofShape]
    omega

end Grammar

end GrammarEvolution
