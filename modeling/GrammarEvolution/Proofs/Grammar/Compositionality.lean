import GrammarEvolution.Proofs.Grammar.Evaluation
import GrammarEvolution.Proofs.Tree.Splice

/-!
The value of a whole from the values of its parts.

An evaluation puts two questions to a part: which operation it is, if it stands first among several
children, and what it is worth, if it stands elsewhere. Some parts it does not look at at all.

* `evalShape_eq_ok_iff`: what a derivation is worth, by the kind of its symbol.
* `Interchangeable.node`, `Interchangeable.replaceAt`: derivations that answer both questions alike
  may stand for each other at any address.
* `eval_replace`: so a tree keeps its value when a part of it is replaced by one of equal value.
-/

namespace GrammarEvolution

open Rose (node)

namespace Grammar

variable {V : Type} {g : Grammar V} {bindings : List V} {s : SymbolId} {v : V}
  {r r' : Rose SymbolId} {cs ds : List (Rose SymbolId)}

/-! ### Values -/

/-- What a symbol does to its operands, if it is an operation. -/
def operation? (g : Grammar V) (s : SymbolId) : Option (List V → List V → V) :=
  match g.symbol? s with
  | some (.operation _ apply) => some apply
  | _ => none

theorem operation?_eq_none_iff : g.operation? s = none ↔ g.isOperation s = false := by
  rw [operation?, isOperation]
  cases g.symbol? s with
  | none => simp
  | some entry => cases entry <;> simp [Symbol.isOperation]

theorem operation?_eq_some_iff {f : List V → List V → V} :
    g.operation? s = some f ↔ ∃ name, g.symbol? s = some (.operation name f) := by
  rw [operation?]
  cases g.symbol? s with
  | none => simp
  | some entry => cases entry <;> simp

/-- The value of a node from those of its children. A constant and a variable do not look at what
is below them. -/
inductive Worth (g : Grammar V) (bindings : List V) (s : SymbolId) :
    List (Rose SymbolId) → V → Prop
  | constant {cs : List (Rose SymbolId)} {name : String} {v : V} :
      g.symbol? s = some (.constant name v) → Worth g bindings s cs v
  | bound {cs : List (Rose SymbolId)} {name : String} {index : Nat} {v : V} :
      g.symbol? s = some (.var name index) → bindings[index]? = some v → Worth g bindings s cs v
  | only {c : Rose SymbolId} {name : String} {v : V} :
      g.symbol? s = some (.nonTerminal name) → g.operation? c.label = none →
      g.evalShape bindings c = .ok v → Worth g bindings s [c] v
  | applied {first : Rose SymbolId} {operands : List (Rose SymbolId)} {name : String}
      {f : List V → List V → V} {values : List V} :
      g.symbol? s = some (.nonTerminal name) → g.operation? first.label = some f →
      operands ≠ [] → List.Forall₂ (fun c v => g.evalShape bindings c = .ok v) operands values →
      Worth g bindings s (first :: operands) (f values bindings)

theorem evalShape_node (s : SymbolId) (cs : List (Rose SymbolId)) :
    g.evalShape bindings (node s cs) =
      g.evalStep bindings s (cs.map fun c => (c, g.evalShape bindings c)) :=
  Rose.fold_node _ s cs

/-- Above one child alone stands its value, unless the child is an operation. -/
theorem evalStep_only_eq_ok_iff {name : String} {c : Rose SymbolId}
    {value : Rose SymbolId → Except Error V} (symbol : g.symbol? s = some (.nonTerminal name)) :
    g.evalStep bindings s [(c, value c)] = .ok v ↔
      g.operation? c.label = none ∧ value c = .ok v := by
  rw [operation?_eq_none_iff]
  cases kind : g.isOperation c.label <;>
    simp [evalStep, symbol, kind, throw, throwThe, MonadExceptOf.throw]

/-- Above several children, the first is applied to the values of the others. -/
theorem evalStep_several_eq_ok_iff {name : String} {first : Rose SymbolId}
    {operands : List (Rose SymbolId)} {value : Rose SymbolId → Except Error V}
    (symbol : g.symbol? s = some (.nonTerminal name)) (several : operands ≠ []) :
    g.evalStep bindings s ((first :: operands).map fun c => (c, value c)) = .ok v ↔
      ∃ f values, g.operation? first.label = some f ∧
        List.Forall₂ (fun c v => value c = .ok v) operands values ∧ f values bindings = v := by
  cases head : g.operation? first.label with
  | none =>
      have failed :
          (g.evalStep bindings s ((first :: operands).map fun c => (c, value c))).error? =
            some (.evaluation (.headNotOperation name (g.name first.label))) := by
        rw [error?_evalStep_several symbol several, operation?_eq_none_iff.mp head,
          if_neg Bool.false_ne_true]
      rw [Except.error?_eq_some_iff.mp failed]
      simp
  | some f =>
      obtain ⟨entry, found⟩ := operation?_eq_some_iff.mp head
      obtain ⟨second, rest, rfl⟩ := List.exists_cons_of_ne_nil several
      have step : g.evalStep bindings s ((first :: second :: rest).map fun c => (c, value c)) =
          ((second :: rest).map fun c => (c, value c)).mapM (·.2) >>= fun values =>
            pure (f values bindings) := by
        simp only [evalStep, symbol, found, List.map_cons]
      simp only [step, Except.bind_eq_ok_iff, Except.mapM_eq_ok_iff, List.forall₂_map_left_iff]
      constructor
      · rintro ⟨values, each, result⟩
        exact ⟨f, values, rfl, each, Except.ok.inj result⟩
      · rintro ⟨_, values, same, each, rfl⟩
        cases same
        exact ⟨values, each, rfl⟩

/-- **What a derivation is worth**, by the kind of the symbol at its top. -/
theorem evalShape_eq_ok_iff :
    g.evalShape bindings (node s cs) = .ok v ↔ g.Worth bindings s cs v := by
  rw [evalShape_node]
  constructor
  · intro worth
    cases symbol : g.symbol? s with
    | none => simp [evalStep, symbol, throw, throwThe, MonadExceptOf.throw] at worth
    | some entry =>
        cases entry with
        | nonTerminal name =>
            rcases cs with _ | ⟨c, _ | ⟨second, rest⟩⟩
            · simp [evalStep, symbol, throw, throwThe, MonadExceptOf.throw] at worth
            · obtain ⟨plain, value⟩ := (evalStep_only_eq_ok_iff symbol).mp worth
              exact .only symbol plain value
            · have several := List.cons_ne_nil second rest
              obtain ⟨f, values, head, each, rfl⟩ :=
                (evalStep_several_eq_ok_iff symbol several).mp worth
              exact .applied symbol head several each
        | constant name value =>
            simp only [evalStep, symbol, pure, Except.pure, Except.ok.injEq] at worth
            exact worth ▸ .constant symbol
        | var name index =>
            cases bound : bindings[index]? with
            | none => simp [evalStep, symbol, bound, throw, throwThe, MonadExceptOf.throw] at worth
            | some value =>
                simp only [evalStep, symbol, bound, pure, Except.pure, Except.ok.injEq] at worth
                exact worth ▸ .bound symbol bound
        | operation name apply =>
            simp [evalStep, symbol, throw, throwThe, MonadExceptOf.throw] at worth
  · intro worth
    cases worth with
    | constant symbol => simp [evalStep, symbol, pure, Except.pure]
    | bound symbol bound => simp [evalStep, symbol, bound, pure, Except.pure]
    | only symbol plain value => exact (evalStep_only_eq_ok_iff symbol).mpr ⟨plain, value⟩
    | applied symbol head several each =>
        exact (evalStep_several_eq_ok_iff symbol several).mpr ⟨_, _, head, each, rfl⟩

/-- What has a value is no operation. -/
theorem operation?_of_worth (h : g.evalShape bindings r = .ok v) : g.operation? r.label = none := by
  cases r with
  | node s cs =>
      rw [operation?, Rose.label_node]
      cases evalShape_eq_ok_iff.mp h with
      | constant symbol => rw [symbol]
      | bound symbol _ => rw [symbol]
      | only symbol _ _ => rw [symbol]
      | applied symbol _ _ _ => rw [symbol]

/-! ### Parts that may stand for each other -/

/-- Two derivations that answer alike to whatever an evaluation asks of a part. -/
structure Interchangeable (g : Grammar V) (bindings : List V) (r r' : Rose SymbolId) : Prop where
  head : g.operation? r.label = g.operation? r'.label
  value : ∀ v, g.evalShape bindings r = .ok v ↔ g.evalShape bindings r' = .ok v

namespace Interchangeable

theorem refl (r : Rose SymbolId) : g.Interchangeable bindings r r :=
  ⟨rfl, fun _ => Iff.rfl⟩

theorem symm (h : g.Interchangeable bindings r r') : g.Interchangeable bindings r' r :=
  ⟨h.head.symm, fun v => (h.value v).symm⟩

/-- Parts of one value are no operations, so nothing more is asked of them. -/
theorem of_values (h : g.evalShape bindings r = .ok v) (h' : g.evalShape bindings r' = .ok v) :
    g.Interchangeable bindings r r' where
  head := (operation?_of_worth h).trans (operation?_of_worth h').symm
  value w := by rw [h, h']

/-- Operands that answer as before have the values they had. -/
theorem values {vs : List V} (each : List.Forall₂ (g.Interchangeable bindings) cs ds)
    (h : List.Forall₂ (fun c v => g.evalShape bindings c = .ok v) cs vs) :
    List.Forall₂ (fun c v => g.evalShape bindings c = .ok v) ds vs := by
  induction each generalizing vs with
  | nil => exact h
  | cons first _ ih =>
      cases h with
      | cons value rest => exact .cons ((first.value _).mp value) (ih rest)

/-- A node does not change its value when its children answer as before. -/
theorem worth (each : List.Forall₂ (g.Interchangeable bindings) cs ds)
    (h : g.Worth bindings s cs v) : g.Worth bindings s ds v := by
  cases h with
  | constant symbol => exact .constant symbol
  | bound symbol bound => exact .bound symbol bound
  | only symbol plain value =>
      cases each with
      | cons first none =>
          cases none
          exact .only symbol (first.head ▸ plain) ((first.value v).mp value)
  | applied symbol head several operands =>
      cases each with
      | cons first rest =>
          refine .applied symbol (first.head ▸ head) (fun none => several ?_) (values rest operands)
          rwa [none, List.forall₂_nil_right_iff] at rest

/-- **Nodes are interchangeable when their children are**, one for one. -/
protected theorem node (s : SymbolId) (each : List.Forall₂ (g.Interchangeable bindings) cs ds) :
    g.Interchangeable bindings (node s cs) (node s ds) where
  head := rfl
  value v := by
    have back : List.Forall₂ (g.Interchangeable bindings) ds cs :=
      each.flip.imp fun _ _ h => h.symm
    rw [evalShape_eq_ok_iff, evalShape_eq_ok_iff]
    exact ⟨worth each, worth back⟩

/-- Wholes are interchangeable when they differ in interchangeable parts. -/
theorem replaceAt {t : Rose SymbolId} {p : List Nat} (here : t.subtreeAt p = some r)
    (h : g.Interchangeable bindings r r') : g.Interchangeable bindings t (t.replaceAt r' p) := by
  induction p generalizing t with
  | nil =>
      cases here
      exact h
  | cons i p ih =>
      obtain ⟨c, slot, below⟩ := Rose.subtreeAt_cons_eq_some_iff.mp here
      rw [Rose.replaceAt_cons slot]
      cases t with
      | node s cs => exact .node s (List.forall₂_set slot (ih below) refl)

end Interchangeable

/-! ### Trees -/

/-- **A tree keeps its value when a part of it is replaced** by a tree of the same value, and if it
has none it does not get one. Nothing is asked of the kinds of the two: what has a value is no
operation. Nor need the tree be a derivation. -/
theorem eval_replace {t u : Tree} {n : Nat} {w : V} (h : t.WellFormed) (reached : n ∈ t.preorder)
    (notRoot : n ≠ t.root) (here : g.evalAt bindings t n = .ok w)
    (there : g.eval bindings u = .ok w) :
    ∃ t', t.replace n u = .ok t' ∧ ∀ v, g.eval bindings t' = .ok v ↔ g.eval bindings t = .ok v := by
  obtain ⟨p, stands⟩ := Tree.mem_preorder_iff_standsAt.mp reached
  have parts : g.Interchangeable bindings (t.shapeAt n) u.shape := .of_values here there
  have wholes := parts.replaceAt stands.subtreeAt_shape
  refine ⟨_, h.replace_eq stands notRoot u, fun v => ?_⟩
  rw [eval, evalAt, ← Tree.shape, Tree.shape_ofShape]
  exact (wholes.value v).symm

/-- A sum of a variable and of a constant that something stands below. The constant is replaced by a
sum of one operand, which is worth as much. Neither tree is a derivation. -/
theorem eval_replace_sums :
    let t := Tree.ofShape (node 0 [node 1 [], node 0 [node 2 []], node 0 [node 3 [node 0 []]]])
    let u := Tree.ofShape (node 0 [node 1 [], node 2 []])
    (t.WellFormed ∧ 4 ∈ t.preorder ∧ 4 ≠ t.root ∧ sums.evalAt [1] t 4 = .ok 1 ∧
      sums.eval [1] u = .ok 1) ∧
    ∃ t', t.replace 4 u = .ok t' ∧ sums.eval [1] t' = .ok 2 := by
  intro t u
  have wellFormed : t.WellFormed := Tree.wellFormed_ofShape _
  have reached : 4 ∈ t.preorder := by decide +kernel
  have notRoot : 4 ≠ t.root := by decide
  have here : sums.evalAt [1] t 4 = .ok 1 := by decide +kernel
  have there : sums.eval [1] u = .ok 1 := by decide +kernel
  obtain ⟨t', replaced, value⟩ := eval_replace wellFormed reached notRoot here there
  exact ⟨⟨wellFormed, reached, notRoot, here, there⟩,
    t', replaced, (value 2).mpr (by decide +kernel)⟩

end Grammar

end GrammarEvolution
