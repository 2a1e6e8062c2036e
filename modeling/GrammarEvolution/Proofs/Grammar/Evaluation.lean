import GrammarEvolution.Proofs.Grammar.Derivation
import GrammarEvolution.Proofs.Grammar.Nodewise
import GrammarEvolution.Proofs.Grammar.Record

/-!
Which derivations have a value.

A node offends when its variable has no binding, or when it has several children and the first of
them is no operation. `evalStep` has three more faults to report, but declarations leave no room for
them: in a built grammar an operation stands in front of its operands and nowhere else.

* `Built.arranged`: how the right-hand sides of a built grammar are laid out.
* `offence?_eq_some_iff`: the search for an offence at one node, against what an offence is.
* `error?_evalStep`: a step of a derivation fails with its own offence, or else as the first of its
  children that fails.
* `error?_evalShape`: a derivation fails with its first offence, and without one it has a value.
* `eval_outcome`: which trees have a value, and what the others fail with.
-/

namespace GrammarEvolution

open Rose (node)

namespace Grammar

variable {V : Type} {g : Grammar V} {bindings : List V} {s : SymbolId} {below : List SymbolId}

/-- A non-terminal is a symbol, and no operation. -/
theorem of_isNonTerminal (kind : g.isNonTerminal s = true) :
    s < g.symbols.size ∧ g.isOperation s = false := by
  rw [isNonTerminal, symbol?] at kind
  rw [isOperation, symbol?]
  cases found : g.symbols[s]? with
  | none => simp [found] at kind
  | some entry =>
      refine ⟨(Array.getElem?_eq_some_iff.mp found).1, ?_⟩
      cases entry <;> simp_all [Symbol.isNonTerminal, Symbol.isOperation]

/-! ### Right-hand sides -/

/-- A right-hand side is made of symbols of the grammar, and an operation among them stands in front
of operands. -/
structure Arranged (g : Grammar V) (rhs : List SymbolId) : Prop where
  something : rhs ≠ []
  known : ∀ s ∈ rhs, s < g.symbols.size
  operation : ∀ (i : Nat) (s : SymbolId), rhs[i]? = some s → g.isOperation s = true →
    i = 0 ∧ 1 < rhs.length

/-- What may stand below a symbol of a built grammar is laid out as it was declared. -/
theorem Built.arranged (built : g.Built) (has : g.hasProduction s below = true) :
    g.Arranged below := by
  obtain ⟨calls, accepted⟩ := built
  obtain ⟨start, complete, rfl⟩ := Builder.build_eq_ok_iff.mp accepted
  have kept := complete.kept (Builder.recorded_after calls)
  have mem := Array.contains_iff_mem.mp has
  obtain ⟨offers, -, spelled⟩ := kept.productions
  obtain ⟨offer, -, spells⟩ := spelled.exists_of_mem_right (Array.mem_toList_iff.mpr mem)
  exact {
    something := spells.something
    known := fun s hs =>
      kept.inside s (.inr (.inr (.inr ⟨_, mem, List.mem_cons_of_mem _ hs⟩)))
    operation := spells.operation }

/-- Nothing is rewritten to an operation alone. -/
theorem Arranged.only {only : SymbolId} (h : g.Arranged [only]) : g.isOperation only = false := by
  cases kind : g.isOperation only with
  | false => rfl
  | true => exact absurd (h.operation 0 only rfl kind).2 (Nat.lt_irrefl 1)

/-- Operations are no operands. -/
theorem Arranged.operand {first operand : SymbolId} {operands : List SymbolId}
    (h : g.Arranged (first :: operands)) (mem : operand ∈ operands) :
    g.isOperation operand = false := by
  cases kind : g.isOperation operand with
  | false => rfl
  | true =>
      obtain ⟨i, here⟩ := List.getElem?_of_mem mem
      exact absurd (h.operation (i + 1) operand here kind).1 (Nat.succ_ne_zero i)

/-! ### Offences -/

/-- Why a node can have no value, whatever its children are worth: its variable has no binding, or
it has several children and the first of them is no operation. -/
inductive Offends (g : Grammar V) (bindings : List V) :
    SymbolId → List SymbolId → EvaluationFault → Prop
  | unbound {s : SymbolId} {below : List SymbolId} {name : String} {index : Nat} :
      g.symbol? s = some (.var name index) → bindings.length ≤ index →
      Offends g bindings s below (.unboundVariable name index)
  | headless {s first second : SymbolId} {rest : List SymbolId} {name : String} :
      g.symbol? s = some (.nonTerminal name) → g.isOperation first = false →
      Offends g bindings s (first :: second :: rest) (.headNotOperation name (g.name first))

/-- The offence of a node, from its symbol and those of its children. -/
def offence? (g : Grammar V) (bindings : List V) (s : SymbolId) (below : List SymbolId) :
    Option EvaluationFault :=
  match g.symbol? s, below with
  | some (.var name index), _ =>
      if bindings.length ≤ index then some (.unboundVariable name index) else none
  | some (.nonTerminal name), first :: _ :: _ =>
      if g.isOperation first then none else some (.headNotOperation name (g.name first))
  | _, _ => none

theorem offence?_eq_some_iff {fault : EvaluationFault} :
    g.offence? bindings s below = some fault ↔ g.Offends bindings s below fault := by
  constructor
  · intro found
    unfold offence? at found
    split at found
    · rename_i name index symbol
      split at found
      · cases found
        exact .unbound symbol ‹_›
      · cases found
    · rename_i name first second rest symbol
      split at found
      · cases found
      · cases found
        exact .headless symbol (Bool.eq_false_iff.mpr ‹_›)
    · cases found
  · intro offends
    cases offends with
    | unbound symbol beyond => simp [offence?, symbol, beyond]
    | headless symbol other => simp [offence?, symbol, other]

theorem offence?_eq_none_iff :
    g.offence? bindings s below = none ↔ ∀ fault, ¬ g.Offends bindings s below fault := by
  simp [Option.eq_none_iff_forall_ne_some, offence?_eq_some_iff]

/-- An operation in its place is no offence. -/
theorem offence?_of_isOperation (kind : g.isOperation s = true) :
    g.offence? bindings s below = none := by
  rw [isOperation] at kind
  cases symbol : g.symbol? s with
  | none => simp [offence?, symbol]
  | some entry => cases entry <;> simp_all [offence?, Symbol.isOperation]

/-! ### One step -/

section Step

variable {name : String} {only first : Rose SymbolId} {operands : List (Rose SymbolId)}
  {value : Rose SymbolId → Except Error V}

/-- What stands above one child alone has its value, unless the child is an operation. -/
theorem error?_evalStep_only (symbol : g.symbol? s = some (.nonTerminal name))
    (plain : g.isOperation only.label = false) :
    (g.evalStep bindings s [(only, value only)]).error? = (value only).error? := by
  simp [evalStep, symbol, plain]

/-- With several children the first is to be applied to the values of the others. -/
theorem error?_evalStep_several (symbol : g.symbol? s = some (.nonTerminal name))
    (several : operands ≠ []) :
    (g.evalStep bindings s ((first :: operands).map fun c => (c, value c))).error? =
      if g.isOperation first.label then operands.findSome? fun c => (value c).error?
      else some (.evaluation (.headNotOperation name (g.name first.label))) := by
  obtain ⟨second, rest, rfl⟩ := List.exists_cons_of_ne_nil several
  cases head : g.symbol? first.label with
  | none => simp [evalStep, symbol, head, isOperation, throw, throwThe, MonadExceptOf.throw]
  | some entry =>
      cases entry with
      | operation operator apply =>
          have failing : ((second :: rest).map fun c => (c, value c)).mapM (·.2) =
              (second :: rest).mapM value := List.mapM_map
          rw [List.map_cons] at failing
          simp only [evalStep, symbol, head, isOperation, List.map_cons]
          rw [failing, ← Except.error?_mapM]
          cases (second :: rest).mapM value <;> rfl
      | _ =>
          simp [evalStep, symbol, head, isOperation, Symbol.isOperation, throw, throwThe,
            MonadExceptOf.throw]

/-- What stands above a right-hand side fails with its own offence, or else as the first operand
that fails. -/
theorem error?_evalStep_nonTerminal {cs : List (Rose SymbolId)}
    (symbol : g.symbol? s = some (.nonTerminal name)) (arranged : g.Arranged (cs.map Rose.label)) :
    (g.evalStep bindings s (cs.map fun c => (c, value c))).error? =
      match g.offence? bindings s (cs.map Rose.label) with
      | some fault => some (.evaluation fault)
      | none => cs.findSome? fun c => if g.isOperation c.label then none else (value c).error? := by
  match cs with
  | [] => exact absurd rfl arranged.something
  | [only] =>
      have plain := arranged.only
      rw [List.map_singleton, error?_evalStep_only symbol plain]
      simp [offence?, symbol, plain]
  | first :: second :: rest =>
      rw [error?_evalStep_several symbol (List.cons_ne_nil second rest)]
      cases head : g.isOperation first.label with
      | false => simp [offence?, symbol, head]
      | true =>
          -- No other child is an operation, so none of them is passed over.
          have operands : ∀ c ∈ second :: rest,
              (if g.isOperation c.label then none else (value c).error?) = (value c).error? :=
            fun c hc => by simp [arranged.operand (List.mem_map_of_mem hc)]
          rw [if_pos rfl, ← List.findSome?_congr operands]
          simp [offence?, symbol, head]

/-- What stands above nothing fails with its own offence, unless it is an operation. -/
theorem error?_evalStep_leaf {entry : Symbol V} (symbol : g.symbol? s = some entry)
    (terminal : entry.isNonTerminal = false) (plain : entry.isOperation = false) :
    (g.evalStep bindings s []).error? = (g.offence? bindings s []).map .evaluation := by
  cases entry with
  | nonTerminal name => cases terminal
  | operation name apply => cases plain
  | constant name constant => simp [evalStep, symbol, offence?, pure, Except.pure]
  | var name index =>
      cases bound : bindings[index]? with
      | none =>
          have beyond := List.getElem?_eq_none_iff.mp bound
          simp [evalStep, symbol, offence?, beyond, throw, throwThe, MonadExceptOf.throw]
      | some value =>
          have inside := Nat.not_le_of_lt (List.getElem?_eq_some_iff.mp bound).1
          simp [evalStep, symbol, offence?, bound, inside, pure, Except.pure]

/-- **A step of a derivation fails** with its own offence, or else as the first child that fails,
where operations do not count. -/
theorem error?_evalStep (built : g.Built) {cs : List (Rose SymbolId)} (known : s < g.symbols.size)
    (plain : g.isOperation s = false) (valid : g.checkStep s (cs.map Rose.label) = .ok ()) :
    (g.evalStep bindings s (cs.map fun c => (c, value c))).error? =
      match g.offence? bindings s (cs.map Rose.label) with
      | some fault => some (.evaluation fault)
      | none => cs.findSome? fun c => if g.isOperation c.label then none else (value c).error? := by
  have symbol : g.symbol? s = some g.symbols[s] := Array.getElem?_eq_getElem known
  rw [isOperation, symbol] at plain
  rw [checkStep_ok_iff, isNonTerminal, symbol] at valid
  cases kind : g.symbols[s].isNonTerminal with
  | true =>
      obtain ⟨name, entry⟩ : ∃ name, g.symbols[s] = .nonTerminal name := by
        cases entry : g.symbols[s] <;> simp_all [Symbol.isNonTerminal]
      have has : g.hasProduction s (cs.map Rose.label) = true := by simpa [kind] using valid
      rw [entry] at symbol
      exact error?_evalStep_nonTerminal symbol (built.arranged has)
  | false =>
      have leaf : cs = [] := by simpa [kind] using valid
      subst leaf
      rw [List.map_nil, error?_evalStep_leaf symbol kind plain, List.map_nil]
      cases g.offence? bindings s [] <;> rfl

end Step

/-! ### Derivations -/

/-- The first offence in a tree, a node before its children and these from left to right. -/
def firstOffence? (g : Grammar V) (bindings : List V) (r : Rose SymbolId) :
    Option EvaluationFault :=
  r.subtrees.findSome? fun u => g.offence? bindings u.label (u.children.map Rose.label)

theorem firstOffence?_node (cs : List (Rose SymbolId)) :
    g.firstOffence? bindings (node s cs) =
      match g.offence? bindings s (cs.map Rose.label) with
      | some fault => some fault
      | none => cs.findSome? (g.firstOffence? bindings) := by
  rw [firstOffence?, Rose.subtrees_node, List.findSome?_cons, List.findSome?_flatMap,
    Rose.label_node, Rose.children_node]
  cases g.offence? bindings s (cs.map Rose.label) <;> rfl

/-- An operation of a derivation stands above nothing, and is no offence. -/
theorem firstOffence?_of_isOperation {r : Rose SymbolId} (valid : g.checkShape r = .ok ())
    (kind : g.isOperation r.label = true) : g.firstOffence? bindings r = none := by
  cases r with
  | node s cs =>
      rw [Rose.label_node] at kind
      have terminal : g.isNonTerminal s = false := by
        cases nonTerminal : g.isNonTerminal s with
        | false => rfl
        | true => exact absurd kind (Bool.eq_false_iff.mp (of_isNonTerminal nonTerminal).2)
      have leaf : cs = [] := by
        simpa [checkStep_ok_iff, terminal] using (checkShape_node_iff.mp valid).1
      subst leaf
      simp [firstOffence?_node, offence?_of_isOperation kind]

/-- **A derivation fails with its first offence**, and without one it has a value. -/
theorem error?_evalShape (built : g.Built) {r : Rose SymbolId}
    (known : r.label < g.symbols.size) (plain : g.isOperation r.label = false)
    (valid : g.checkShape r = .ok ()) :
    (g.evalShape bindings r).error? = (g.firstOffence? bindings r).map .evaluation := by
  induction r using Rose.induction with
  | step s cs ih =>
      rw [Rose.label_node] at known plain
      obtain ⟨top, each⟩ := checkShape_node_iff.mp valid
      have below : ∀ c ∈ cs, c.label < g.symbols.size := by
        intro c hc
        have mem : c.label ∈ cs.map Rose.label := List.mem_map_of_mem hc
        have has := (hasProduction_of_checkStep top (List.ne_nil_of_mem mem)).2
        exact (built.arranged has).known c.label mem
      rw [evalShape, Rose.fold_node, error?_evalStep built known plain top, firstOffence?_node]
      cases g.offence? bindings s (cs.map Rose.label) with
      | some fault => rfl
      | none =>
          dsimp only
          rw [List.map_findSome?]
          refine List.findSome?_congr fun c hc => ?_
          cases kind : g.isOperation c.label with
          | false => exact ih c hc (below c hc) kind (each c hc)
          | true =>
              rw [Function.comp_apply, firstOffence?_of_isOperation (each c hc) kind]
              rfl

/-! ### Trees -/

variable {t : Tree}

/-- The first offence in a well-formed tree is found by the walk over its nodes. -/
theorem firstOffence?_shape (h : t.WellFormed) : g.firstOffence? bindings t.shape =
    t.preorder.findSome? fun n => g.offence? bindings (t.symbol n) (t.childSymbols n) := by
  rw [firstOffence?, Tree.subtrees_shape, List.findSome?_map]
  simp [Function.comp_def, h.labels_shapeAt]

/-- What an offence reads as. -/
theorem Offends.message {fault : EvaluationFault} (h : g.Offends bindings s below fault) :
    (∃ name index, fault = .unboundVariable name index ∧ (Error.evaluation fault).message =
      "cannot evaluate tree: " ++ s!"no binding for {name} at index {index}") ∨
    ∃ name found, fault = .headNotOperation name found ∧ (Error.evaluation fault).message =
      "cannot evaluate tree: " ++ s!"{name} must start with an operation, found {found}" := by
  cases h with
  | unbound symbol beyond => exact .inl ⟨_, _, rfl, rfl⟩
  | headless symbol other => exact .inr ⟨_, _, rfl, rfl⟩

/-- The walk over the nodes of a derivation tells what its evaluation fails with. -/
theorem error?_eval (built : g.Built) (h : t.WellFormed)
    (start : g.isNonTerminal (t.symbol t.root) = true) (valid : g.check t = .ok ()) :
    (g.eval bindings t).error? =
      (t.preorder.findSome? fun n =>
        g.offence? bindings (t.symbol n) (t.childSymbols n)).map .evaluation := by
  have label : t.symbol t.root = t.shape.label := t.symbol_root_eq_label
  obtain ⟨known, plain⟩ := of_isNonTerminal start
  rw [label] at known plain
  rw [← firstOffence?_shape h]
  exact error?_evalShape built known plain valid

theorem eval_eq_error_iff (built : g.Built) (h : t.WellFormed)
    (start : g.isNonTerminal (t.symbol t.root) = true) (valid : g.check t = .ok ()) {e : Error} :
    g.eval bindings t = .error e ↔ ∃ before n after fault,
      t.preorder = before ++ n :: after ∧
      (∀ m ∈ before, ∀ other, ¬ g.Offends bindings (t.symbol m) (t.childSymbols m) other) ∧
      g.Offends bindings (t.symbol n) (t.childSymbols n) fault ∧ e = .evaluation fault := by
  rw [← Except.error?_eq_some_iff, error?_eval built h start valid, Option.map_eq_some_iff]
  simp only [List.findSome?_eq_some_iff, offence?_eq_some_iff, offence?_eq_none_iff]
  constructor
  · rintro ⟨fault, ⟨before, n, after, walk, offends, clean⟩, rfl⟩
    exact ⟨before, n, after, fault, walk, clean, offends, rfl⟩
  · rintro ⟨before, n, after, fault, walk, clean, offends, rfl⟩
    exact ⟨fault, ⟨before, n, after, walk, offends, clean⟩, rfl⟩

/-- **Which derivations have a value.** A tree without an offence has one, and any other fails with
the first offence on the walk. That a non-terminal has no children or is rewritten to a bare
operation, or that an operation is to be evaluated, does not come up. -/
theorem eval_outcome (built : g.Built) (h : t.WellFormed)
    (start : g.isNonTerminal (t.symbol t.root) = true) (valid : g.check t = .ok ())
    (bindings : List V) :
    ((∃ v, g.eval bindings t = .ok v) ↔
      ∀ n ∈ t.preorder, ∀ fault, ¬ g.Offends bindings (t.symbol n) (t.childSymbols n) fault) ∧
    (∀ e, g.eval bindings t = .error e ↔ ∃ before n after fault,
      t.preorder = before ++ n :: after ∧
      (∀ m ∈ before, ∀ other, ¬ g.Offends bindings (t.symbol m) (t.childSymbols m) other) ∧
      g.Offends bindings (t.symbol n) (t.childSymbols n) fault ∧ e = .evaluation fault) ∧
    (∀ e, g.eval bindings t = .error e →
      (∃ name index, e = .evaluation (.unboundVariable name index) ∧ e.message =
        "cannot evaluate tree: " ++ s!"no binding for {name} at index {index}") ∨
      ∃ name found, e = .evaluation (.headNotOperation name found) ∧ e.message =
        "cannot evaluate tree: " ++ s!"{name} must start with an operation, found {found}") ∧
    ∀ name, g.eval bindings t ≠ .error (.evaluation (.childlessNonTerminal name)) ∧
      g.eval bindings t ≠ .error (.evaluation (.bareOperation name)) ∧
      g.eval bindings t ≠ .error (.evaluation (.operationAlone name)) := by
  have value : (∃ v, g.eval bindings t = .ok v) ↔
      ∀ n ∈ t.preorder, ∀ fault, ¬ g.Offends bindings (t.symbol n) (t.childSymbols n) fault := by
    rw [← Except.error?_eq_none_iff, error?_eval built h start valid, Option.map_eq_none_iff,
      List.findSome?_eq_none_iff]
    simp only [offence?_eq_none_iff]
  have offence : ∀ e, g.eval bindings t = .error e →
      ∃ n fault, g.Offends bindings (t.symbol n) (t.childSymbols n) fault ∧
        e = .evaluation fault := by
    intro e failed
    obtain ⟨before, n, after, fault, walk, clean, offends, same⟩ :=
      (eval_eq_error_iff built h start valid).mp failed
    exact ⟨n, fault, offends, same⟩
  refine ⟨value, fun e => eval_eq_error_iff built h start valid, ?_, fun name => ⟨?_, ?_, ?_⟩⟩
  · intro e failed
    obtain ⟨n, fault, offends, rfl⟩ := offence e failed
    simpa using offends.message
  all_goals
    intro failed
    obtain ⟨n, fault, offends, same⟩ := offence _ failed
    cases same
    rcases offends.message with ⟨_, _, other, -⟩ | ⟨_, _, other, -⟩ <;> cases other

/-! ### A grammar of sums -/

/-- `sum ::= plus sum sum | x | one | sum sum`. -/
def sums : Grammar Nat where
  symbols := #[.nonTerminal "sum", .operation "plus" fun values _ => values.sum, .var "x" 0,
    .constant "one" 1]
  nonTerminals := [0]
  terminals := [1, 2, 3]
  productions := #[⟨0, [1, 0, 0]⟩, ⟨0, [2]⟩, ⟨0, [3]⟩, ⟨0, [0, 0]⟩]
  start := 0

/-- The operation was declared between its operands. -/
theorem sums_built : sums.Built := by
  refine ⟨[.nonTerminal "sum", .operation "plus" fun values _ => values.sum, .fresh "x",
    .constant "one" 1, .declareNonTerminals [0], .declareTerminals [1, 2, 3], .startAt 0,
    .production 0 [0, 1, 0], .leafProductions 0 [2, 3], .production 0 [0, 0]], ?_⟩
  with_unfolding_all rfl

/-- A sum whose first operand is a variable and whose second lacks an operation. Which of the two
decides depends on whether the variable is bound. -/
theorem eval_lopsided :
    let t := Tree.ofShape (node 0 [node 1 [], node 0 [node 2 []],
      node 0 [node 0 [node 3 []], node 0 [node 3 []]]])
    (sums.Built ∧ t.WellFormed ∧ sums.isNonTerminal (t.symbol t.root) = true ∧
      sums.check t = .ok ()) ∧
    sums.eval [] t = .error (.evaluation (.unboundVariable "x" 0)) ∧
    sums.eval [4] t = .error (.evaluation (.headNotOperation "sum" "sum")) := by
  intro t
  have wellFormed : t.WellFormed := Tree.wellFormed_ofShape _
  have start : sums.isNonTerminal (t.symbol t.root) = true := by decide +kernel
  have valid : sums.check t = .ok () := by decide +kernel
  have unbound := eval_outcome sums_built wellFormed start valid []
  have bound := eval_outcome sums_built wellFormed start valid [4]
  refine ⟨⟨sums_built, wellFormed, start, valid⟩, (unbound.2.1 _).mpr ?_, (bound.2.1 _).mpr ?_⟩
  · refine ⟨[0, 1, 2], 3, [4, 5, 6, 7, 8], _, by decide +kernel, ?_, .unbound rfl (by decide), rfl⟩
    simp only [← offence?_eq_none_iff]
    decide +kernel
  · refine ⟨[0, 1, 2, 3], 4, [5, 6, 7, 8], _, by decide +kernel, ?_, .headless rfl rfl, rfl⟩
    simp only [← offence?_eq_none_iff]
    decide +kernel

end Grammar

end GrammarEvolution
