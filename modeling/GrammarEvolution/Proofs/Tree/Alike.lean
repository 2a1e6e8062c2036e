import GrammarEvolution.Proofs.Grammar.Nodewise

/-!
Alike trees, node by node.

Two trees of one shape may be numbered differently and carry different leftovers. `Alongside`
relates the nodes that stand at the same address; nothing relates what the roots do not reach.

* `Alike.preorder_alongside`: the walks of alike trees go alongside each other.
* `Alike.depth_eq`, `Alike.exists_position`: what is read at nodes alongside each other is the same.
* `Alike.result_eq`: what is worked out from node to node comes to the same.
* `Grammar.readsAlike`: so alike trees have the same readings.
-/

namespace GrammarEvolution

namespace Tree

variable {t t' u u' : Tree} {n n' m m' : Nat} {p : List Nat}

/-- Two well-formed trees of one shape. -/
structure Alike (t t' : Tree) : Prop where
  left : t.WellFormed
  right : t'.WellFormed
  shape : t.shape = t'.shape

/-- Two nodes stand at the same address, each in its own tree. -/
def Alongside (t t' : Tree) (n n' : Nat) : Prop :=
  ∃ p, t.StandsAt n p ∧ t'.StandsAt n' p

/-- Below nodes of one shape, the walks go alongside each other. -/
theorem preorder_outline_alongside (ht : t.WellFormed) (ht' : t'.WellFormed) (hn : t.StandsAt n p)
    (hn' : t'.StandsAt n' p) (same : t.shapeAt n = t'.shapeAt n') :
    List.Forall₂ (Alongside t t') (t.outline n).preorder (t'.outline n').preorder := by
  induction n using ht.wellFounded_children.induction generalizing n' p with
  | _ n ih =>
      obtain ⟨-, children⟩ := (shapeAt_eq_iff ht ht').mp same
      rw [ht.outline_eq, ht'.outline_eq, Rose.preorder_node, Rose.preorder_node, List.flatMap_map,
        List.flatMap_map]
      refine .cons ⟨p, hn, hn'⟩ (List.rel_flatMap children.and_getElem? ?_)
      rintro c c' ⟨same, i, hc, hc'⟩
      exact ih c (List.mem_of_getElem? hc) (ht.standsAt_concat_iff.mpr ⟨n, hn, hc⟩)
        (ht'.standsAt_concat_iff.mpr ⟨n', hn', hc'⟩) same

namespace Alike

variable (h : t.Alike t')

include h

/-- What is worked out from node to node, by one rule in both trees, comes to the same at nodes of
one shape. -/
theorem result_eq {β : Type} {rule : SymbolId → List (Rose SymbolId × β) → β} {f f' : Nat → β}
    (hf : ∀ n, f n = rule (t.symbol n) ((t.children n).map fun c => (t.shapeAt c, f c)))
    (hf' : ∀ n, f' n = rule (t'.symbol n) ((t'.children n).map fun c => (t'.shapeAt c, f' c)))
    (same : t.shapeAt n = t'.shapeAt n') : f n = f' n' := by
  induction n using h.left.wellFounded_children.induction generalizing n' with
  | _ n ih =>
      obtain ⟨symbol, children⟩ := (shapeAt_eq_iff h.left h.right).mp same
      rw [hf, hf', symbol]
      refine congrArg (rule _) (children.and_getElem?.map_eq ?_)
      rintro c c' ⟨same, i, hc, -⟩
      exact Prod.ext same (ih c (List.mem_of_getElem? hc) same)

/-- The walks of alike trees go alongside each other. -/
theorem preorder_alongside : List.Forall₂ (Alongside t t') t.preorder t'.preorder :=
  preorder_outline_alongside h.left h.right (standsAt_nil_iff.mpr rfl) (standsAt_nil_iff.mpr rfl)
    h.shape

/-! ### Reading a node -/

section Reading

variable (a : Alongside t t' n n')

include a

theorem root_iff : n = t.root ↔ n' = t'.root := by
  obtain ⟨p, hn, hn'⟩ := a
  constructor
  · rintro rfl
    rw [h.left.standsAt_unique hn (standsAt_nil_iff.mpr rfl)] at hn'
    exact standsAt_nil_iff.mp hn'
  · rintro rfl
    rw [h.right.standsAt_unique hn' (standsAt_nil_iff.mpr rfl)] at hn
    exact standsAt_nil_iff.mp hn

theorem depth_eq : t.depth n = t'.depth n' := by
  obtain ⟨p, hn, hn'⟩ := a
  rw [h.left.depth_eq hn, h.right.depth_eq hn']

theorem shapeAt_eq : t.shapeAt n = t'.shapeAt n' := by
  obtain ⟨p, hn, hn'⟩ := a
  have part := hn.subtreeAt_shape
  rw [h.shape, hn'.subtreeAt_shape] at part
  exact (Option.some.inj part).symm

theorem symbol_eq : t.symbol n = t'.symbol n' := by
  rw [← label_shapeAt, h.shapeAt_eq a, label_shapeAt]

theorem heightAt_eq : t.heightAt n = t'.heightAt n' := by
  rw [← height_shapeAt, h.shapeAt_eq a, height_shapeAt]

theorem childSymbols_eq : t.childSymbols n = t'.childSymbols n' := by
  rw [← h.left.labels_shapeAt, h.shapeAt_eq a, h.right.labels_shapeAt]

theorem isLeaf_eq : t.isLeaf n = t'.isLeaf n' := by
  rw [← children_isEmpty_shapeAt h.left, h.shapeAt_eq a, children_isEmpty_shapeAt h.right]

/-- Nodes alongside each other have the same place below nodes alongside each other. -/
theorem exists_position (notRoot : n ≠ t.root) :
    ∃ m m' i, Alongside t t' m m' ∧ t.position n = .ok (m, i) ∧ t'.position n' = .ok (m', i) := by
  have notRoot' := mt (h.root_iff a).mpr notRoot
  obtain ⟨p, hn, hn'⟩ := a
  obtain ⟨m, i, q, rfl, hm, -, position⟩ := h.left.exists_position hn notRoot
  obtain ⟨m', i', q', split, hm', -, position'⟩ := h.right.exists_position hn' notRoot'
  obtain ⟨rfl, last⟩ := List.append_inj' split rfl
  obtain rfl := List.singleton_inj.mp last
  exact ⟨m, m', i, ⟨q, hm, hm'⟩, position, position'⟩

end Reading

end Alike

end Tree

namespace Grammar

open GrammarEvolution.Tree

variable {V : Type} {g : Grammar V} {t t' : Tree}

/-- Two trees have the same readings, failures included. -/
structure ReadsAlike (g : Grammar V) (t t' : Tree) : Prop where
  check : g.check t = g.check t'
  eval : ∀ bindings, g.eval bindings t = g.eval bindings t'
  display : g.display t = g.display t'
  leaves : g.leaves t = g.leaves t'
  derivation : g.derivation t = g.derivation t'
  size : t.size = t'.size
  height : t.height = t'.height

/-- **Alike trees are read alike.** -/
theorem readsAlike (g : Grammar V) (h : t.Alike t') : g.ReadsAlike t t' where
  check := by
    have steps : t.preorder.map (fun n => g.checkStep (t.symbol n) (t.childSymbols n)) =
        t'.preorder.map (fun n => g.checkStep (t'.symbol n) (t'.childSymbols n)) :=
      h.preorder_alongside.map_eq fun n n' a => by rw [h.symbol_eq a, h.childSymbols_eq a]
    have checks := congrArg (List.forM · id) steps
    simp only [List.forM_eq_forM, List.forM_map] at checks
    rw [(nodewise h.left g).check, (nodewise h.right g).check]
    exact checks
  eval bindings :=
    h.result_eq ((nodewise h.left g).eval bindings) ((nodewise h.right g).eval bindings) h.shape
  display := h.result_eq (nodewise h.left g).display (nodewise h.right g).display h.shape
  leaves := by
    have pools : List.Forall₂ (Alongside t t') (t.preorder.filter t.isLeaf)
        (t'.preorder.filter t'.isLeaf) :=
      List.rel_filter (fun n n' a => iff_of_eq (congrArg (· = true) (h.isLeaf_eq a)))
        h.preorder_alongside
    rw [(nodewise h.left g).leaves, (nodewise h.right g).leaves,
      pools.map_eq fun n n' a => congrArg g.name (h.symbol_eq a)]
  derivation := by
    let rule (s : SymbolId) (below : List (Rose SymbolId × String)) : String :=
      if below.isEmpty then g.name s
      else g.name s ++ "(" ++ String.intercalate " " (below.map (·.2)) ++ ")"
    have worked (t : Tree) (ht : t.WellFormed) : ∀ n, g.derivationShape (t.shapeAt n) =
        rule (t.symbol n)
          ((t.children n).map fun c => (t.shapeAt c, g.derivationShape (t.shapeAt c))) :=
      fun n => by simp [rule, (nodewise ht g).derivation n, Tree.isLeaf, Function.comp_def]
    exact h.result_eq (worked t h.left) (worked t' h.right) h.shape
  size := by
    let rule (_ : SymbolId) (below : List (Rose SymbolId × Nat)) : Nat := (below.map (·.2)).sum + 1
    have worked (t : Tree) (ht : t.WellFormed) : ∀ n, t.sizeAt n =
        rule (t.symbol n) ((t.children n).map fun c => (t.shapeAt c, t.sizeAt c)) :=
      fun n => by simp [rule, ht.sizeAt_eq n, Function.comp_def]
    exact h.result_eq (worked t h.left) (worked t' h.right) h.shape
  height := by
    let rule (_ : SymbolId) (below : List (Rose SymbolId × Nat)) : Nat :=
      (below.map (·.2 + 1)).foldl max 0
    have worked (t : Tree) (ht : t.WellFormed) : ∀ n, t.heightAt n =
        rule (t.symbol n) ((t.children n).map fun c => (t.shapeAt c, t.heightAt c)) :=
      fun n => by simp [rule, ht.heightAt_eq n, Function.comp_def]
    exact h.result_eq (worked t h.left) (worked t' h.right) h.shape

end Grammar

end GrammarEvolution
