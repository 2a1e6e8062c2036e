import GrammarEvolution.Grammar.Builder
import GrammarEvolution.Proofs.Basic
import Mathlib.Data.List.Basic

/-!
What `production` and `build` accept.

Validation has two stages. `Acceptable` says when a production may be declared, by the symbols there
are at that time. `Complete b start` lists what has to be declared in the end, with `start` for the
start symbol; `build` makes a row of tests and names the first that fails, and together the tests
ask for just that.

* `checkedProduction_cases`: an acceptable production is taken, any other is a fault of the setup.
* `Acceptable.operation_first`: an operation of a declared production stands in front, before its
  operands.
* `complete_iff`: declarations are complete when they pass the tests.
* `build_cases`: complete declarations are frozen into a grammar, all others are a fault of the
  setup.
-/

namespace GrammarEvolution

namespace Builder

variable {V : Type} {b : Builder V} {start s lhs : SymbolId} {rhs : List SymbolId} {g : Grammar V}

/-! ### Kinds of symbols -/

theorem isNonTerminal_iff :
    b.isNonTerminal s = true ↔ ∃ name, b.symbols[s]? = some (.nonTerminal name) := by
  rw [isNonTerminal]
  cases b.symbols[s]? with
  | none => simp
  | some symbol => cases symbol <;> simp [Symbol.isNonTerminal]

theorem isTerminal_iff : b.isTerminal s = true ↔
    ∃ symbol, b.symbols[s]? = some symbol ∧ symbol.isNonTerminal = false := by
  rw [isTerminal]
  cases b.symbols[s]? <;> simp

/-- A fault that names a symbol is a fault of the setup, whether or not the symbol is known. -/
theorem lookup_bind_throw {α : Type} (s : SymbolId) (fault : Symbol V → ConfigFault) :
    ∃ f, (b.lookup s >>= fun symbol => (throw (.config (fault symbol)) : Except Error α)) =
      .error (.config f) := by
  rw [lookup]
  cases b.symbols[s]? with
  | none => exact ⟨_, rfl⟩
  | some symbol => exact ⟨_, rfl⟩

/-! ### Productions -/

/-- What may be declared as a production: a non-terminal is rewritten to something that this builder
knows, with one operation at most, and not to an operation alone. -/
structure Acceptable (b : Builder V) (lhs : SymbolId) (rhs : List SymbolId) : Prop where
  owner : b.isNonTerminal lhs = true
  something : rhs ≠ []
  known : ∀ s ∈ rhs, s < b.symbols.size
  single : rhs.countP b.isOperation ≤ 1
  operands : rhs.countP b.isOperation = 1 → rhs.length ≠ 1

theorem acceptable_iff : b.Acceptable lhs rhs ↔
    b.isNonTerminal lhs = true ∧ rhs ≠ [] ∧ (∀ s ∈ rhs, s < b.symbols.size) ∧
      rhs.countP b.isOperation ≤ 1 ∧ (rhs.countP b.isOperation = 1 → rhs.length ≠ 1) :=
  ⟨fun ⟨owner, something, known, single, operands⟩ => ⟨owner, something, known, single, operands⟩,
    fun ⟨owner, something, known, single, operands⟩ => ⟨owner, something, known, single, operands⟩⟩

instance : Decidable (b.Acceptable lhs rhs) :=
  decidable_of_iff' _ acceptable_iff

/-- A handle is looked up with success when the builder has issued it. -/
theorem lookup_cases (b : Builder V) (s : SymbolId) :
    (∃ symbol, b.symbols[s]? = some symbol ∧ b.lookup s = .ok symbol) ∨
      b.symbols[s]? = none ∧ b.lookup s = .error (.config (.foreignSymbol s)) := by
  rw [lookup]
  cases b.symbols[s]? with
  | none => exact .inr ⟨rfl, rfl⟩
  | some symbol => exact .inl ⟨symbol, rfl, rfl⟩

theorem mapM_lookup_cases (b : Builder V) (rhs : List SymbolId) :
    (∃ symbols, rhs.mapM b.lookup = .ok symbols ∧ (∀ s ∈ rhs, s < b.symbols.size) ∧
      symbols.countP Symbol.isOperation = rhs.countP b.isOperation) ∨
    (¬ ∀ s ∈ rhs, s < b.symbols.size) ∧ ∃ fault, rhs.mapM b.lookup = .error (.config fault) := by
  induction rhs with
  | nil => exact .inl ⟨[], rfl, fun s hs => absurd hs List.not_mem_nil, rfl⟩
  | cons s rhs ih =>
      rw [List.mapM_cons]
      rcases b.lookup_cases s with ⟨symbol, found, known⟩ | ⟨absent, unknown⟩
      · rw [known]
        rcases ih with ⟨symbols, rest, inside, count⟩ | ⟨outside, fault, refused⟩
        · refine .inl ⟨symbol :: symbols, by rw [rest]; rfl, ?_, ?_⟩
          · exact List.forall_mem_cons.mpr ⟨(Array.getElem?_eq_some_iff.mp found).1, inside⟩
          · rw [List.countP_cons, List.countP_cons, count, isOperation, found, Option.any_some]
        · refine .inr ⟨fun all => outside (List.forall_mem_cons.mp all).2, fault, ?_⟩
          rw [refused]
          rfl
      · refine .inr ⟨fun all => ?_, _, by rw [unknown]; rfl⟩
        have inside := (List.forall_mem_cons.mp all).1
        rw [Array.getElem?_eq_getElem inside] at absent
        cases absent

/-- **An acceptable production is taken**, its operation in front, and any other is a fault of the
setup. -/
theorem checkedProduction_cases (b : Builder V) (lhs : SymbolId) (rhs : List SymbolId) :
    (b.Acceptable lhs rhs ∧ b.checkedProduction lhs rhs = .ok ⟨lhs, b.operationsFirst rhs⟩) ∨
      ¬ b.Acceptable lhs rhs ∧ ∃ fault, b.checkedProduction lhs rhs = .error (.config fault) := by
  unfold checkedProduction
  simp -zeta only [Except.throw_bind]
  rcases b.lookup_cases lhs with ⟨owner, found, known⟩ | ⟨absent, unknown⟩
  · have kind : b.isNonTerminal lhs = owner.isNonTerminal := by
      rw [isNonTerminal, found, Option.any_some]
    rw [known]
    dsimp only [bind, Except.bind]
    split
    · rename_i isOwner
      split
      · rename_i nothing
        exact .inr ⟨fun a => a.something (List.isEmpty_iff.mp nothing), _, rfl⟩
      rename_i something
      rcases b.mapM_lookup_cases rhs with ⟨symbols, all, inside, count⟩ | ⟨outside, fault, refused⟩
      · rw [all]
        dsimp only
        rw [count]
        split
        · rename_i several
          exact .inr ⟨fun a => Nat.not_lt_of_le a.single several, _, rfl⟩
        rename_i single
        split
        · rename_i alone
          exact .inr ⟨fun a => a.operands alone.1 alone.2, _, rfl⟩
        · rename_i operands
          exact .inl ⟨{
            owner := kind.trans isOwner
            something := mt List.isEmpty_iff.mpr something
            known := inside
            single := Nat.le_of_not_lt single
            operands := fun one length => operands ⟨one, length⟩ }, rfl⟩
      · refine .inr ⟨fun a => outside a.known, fault, ?_⟩
        rw [refused]
    · rename_i notOwner
      exact .inr ⟨fun a => notOwner (kind.symm.trans a.owner), _, rfl⟩
  · refine .inr ⟨fun a => ?_, _, by rw [unknown]; rfl⟩
    have kind := a.owner
    rw [isNonTerminal, absent] at kind
    cases kind

theorem checkedProduction_eq_ok_iff {p : Production} : b.checkedProduction lhs rhs = .ok p ↔
    b.Acceptable lhs rhs ∧ p = ⟨lhs, b.operationsFirst rhs⟩ := by
  rcases b.checkedProduction_cases lhs rhs with ⟨acceptable, ok⟩ | ⟨unacceptable, fault, refused⟩
  · rw [ok, Except.ok.injEq]
    exact ⟨fun same => ⟨acceptable, same.symm⟩, fun ⟨_, same⟩ => same.symm⟩
  · rw [refused]
    exact ⟨nofun, fun ⟨acceptable, _⟩ => absurd acceptable unacceptable⟩

/-- An operation changes its place and nothing is lost. -/
theorem operationsFirst_perm (b : Builder V) (rhs : List SymbolId) :
    (b.operationsFirst rhs).Perm rhs :=
  List.filter_append_perm _ rhs

theorem mem_operationsFirst_iff : s ∈ b.operationsFirst rhs ↔ s ∈ rhs :=
  (b.operationsFirst_perm rhs).mem_iff

/-- All else stays in its order. -/
theorem filter_operationsFirst (b : Builder V) (rhs : List SymbolId) :
    (b.operationsFirst rhs).filter (!b.isOperation ·) = rhs.filter (!b.isOperation ·) := by
  rw [operationsFirst, List.filter_append, List.filter_filter, List.filter_filter]
  simp

/-- In a declared production, an operation stands first and has operands. -/
theorem Acceptable.operation_first (h : b.Acceptable lhs rhs) {i : Nat}
    (at_i : (b.operationsFirst rhs)[i]? = some s) (operation : b.isOperation s = true) :
    i = 0 ∧ 1 < (b.operationsFirst rhs).length := by
  have few : (rhs.filter b.isOperation).length ≤ 1 := List.countP_eq_length_filter ▸ h.single
  have among : i < (rhs.filter b.isOperation).length := by
    by_contra beyond
    rw [operationsFirst, List.getElem?_append_right (Nat.le_of_not_lt beyond)] at at_i
    have other := (List.mem_filter.mp (List.mem_of_getElem? at_i)).2
    rw [operation] at other
    cases other
  have one : rhs.countP b.isOperation = 1 := by
    rw [List.countP_eq_length_filter]
    omega
  have lone := h.operands one
  have some_rhs := List.length_pos_iff.mpr h.something
  rw [(b.operationsFirst_perm rhs).length_eq]
  omega

/-! ### Complete declarations -/

/-- Something of each sort has been declared, symbols are declared as what they are, productions use
declared symbols only, and every declared non-terminal, the start symbol among them, has a
production. -/
structure Complete (b : Builder V) (start : SymbolId) : Prop where
  started : b.start = some start
  nonTerminals : b.nonTerminals ≠ []
  terminals : b.terminals ≠ []
  productions : b.productions ≠ #[]
  nonTerminal : ∀ s ∈ b.nonTerminals, ∃ name, b.symbols[s]? = some (.nonTerminal name)
  terminal : ∀ s ∈ b.terminals, ∃ symbol, b.symbols[s]? = some symbol ∧
    symbol.isNonTerminal = false
  declared : ∀ p ∈ b.productions, ∀ s ∈ p.lhs :: p.rhs, s ∈ b.nonTerminals ∨ s ∈ b.terminals
  owned : ∀ s ∈ b.nonTerminals, ∃ p ∈ b.productions, p.lhs = s
  startDeclared : start ∈ b.nonTerminals

/-- The tests of `build`, in their order. -/
structure Passes (b : Builder V) (start : SymbolId) : Prop where
  started : b.start = some start
  nonTerminals : ¬ b.nonTerminals.isEmpty = true
  terminals : ¬ b.terminals.isEmpty = true
  productions : ¬ b.productions.isEmpty = true
  nonTerminal : ∀ s ∈ b.nonTerminals.eraseDups, b.isNonTerminal s = true
  terminal : ∀ s ∈ b.terminals.eraseDups, b.isTerminal s = true
  declared : ∀ s ∈ b.productions.toList.flatMap fun p => p.lhs :: p.rhs,
    (b.nonTerminals.eraseDups.contains s || b.terminals.eraseDups.contains s) = true
  owned : ∀ s ∈ b.nonTerminals.eraseDups, b.productions.any (·.lhs == s) = true
  startDeclared : b.nonTerminals.eraseDups.contains start = true

/-- Declarations are complete when they pass the tests. -/
theorem complete_iff : b.Complete start ↔ b.Passes start := by
  have known : ∀ s, (b.nonTerminals.eraseDups.contains s || b.terminals.eraseDups.contains s) =
      true ↔ s ∈ b.nonTerminals ∨ s ∈ b.terminals := by
    intro s
    rw [Bool.or_eq_true, List.contains_iff_mem, List.contains_iff_mem, List.mem_eraseDups,
      List.mem_eraseDups]
  have owned : ∀ s, b.productions.any (·.lhs == s) = true ↔ ∃ p ∈ b.productions, p.lhs = s := by
    intro s
    rw [Array.any_eq_true']
    simp only [beq_iff_eq]
  constructor
  · intro c
    exact {
      started := c.started
      nonTerminals := mt List.isEmpty_iff.mp c.nonTerminals
      terminals := mt List.isEmpty_iff.mp c.terminals
      productions := mt Array.isEmpty_iff.mp c.productions
      nonTerminal := fun s hs =>
        isNonTerminal_iff.mpr (c.nonTerminal s (List.mem_eraseDups.mp hs))
      terminal := fun s hs => isTerminal_iff.mpr (c.terminal s (List.mem_eraseDups.mp hs))
      declared := fun s hs => by
        obtain ⟨p, hp, hs⟩ := List.mem_flatMap.mp hs
        exact (known s).mpr (c.declared p (Array.mem_toList_iff.mp hp) s hs)
      owned := fun s hs => (owned s).mpr (c.owned s (List.mem_eraseDups.mp hs))
      startDeclared := List.contains_iff_mem.mpr (List.mem_eraseDups.mpr c.startDeclared) }
  · intro t
    exact {
      started := t.started
      nonTerminals := mt List.isEmpty_iff.mpr t.nonTerminals
      terminals := mt List.isEmpty_iff.mpr t.terminals
      productions := mt Array.isEmpty_iff.mpr t.productions
      nonTerminal := fun s hs =>
        isNonTerminal_iff.mp (t.nonTerminal s (List.mem_eraseDups.mpr hs))
      terminal := fun s hs => isTerminal_iff.mp (t.terminal s (List.mem_eraseDups.mpr hs))
      declared := fun p hp s hs =>
        (known s).mp (t.declared s (List.mem_flatMap.mpr ⟨p, Array.mem_toList_iff.mpr hp, hs⟩))
      owned := fun s hs => (owned s).mp (t.owned s (List.mem_eraseDups.mpr hs))
      startDeclared := List.mem_eraseDups.mp (List.contains_iff_mem.mp t.startDeclared) }

/-! ### Validation -/

/-- The grammar that complete declarations stand for. -/
def frozen (b : Builder V) (start : SymbolId) : Grammar V where
  symbols := b.symbols
  nonTerminals := b.nonTerminals.eraseDups
  terminals := b.terminals.eraseDups
  productions := b.productions
  start := start

/-- A search for an exception finds one only where there is one. -/
theorem not_of_find? {xs : List SymbolId} {good : SymbolId → Bool}
    (found : xs.find? (fun x => !good x) = some s) : ¬ ∀ x ∈ xs, good x = true := by
  intro all
  have bad := List.find?_some found
  rw [all s (List.mem_of_find?_eq_some found)] at bad
  cases bad

/-- A search for an exception that finds none has seen that there is none. -/
theorem forall_of_find? {xs : List SymbolId} {good : SymbolId → Bool}
    (none : ∀ s, xs.find? (fun x => !good x) = some s → False) : ∀ x ∈ xs, good x = true := by
  intro x hx
  have absent := Option.eq_none_iff_forall_ne_some.mpr none
  simpa using List.find?_eq_none.mp absent x hx

/-- **Complete declarations are frozen into a grammar**, and whatever else is declared is refused as
a fault of the setup. -/
theorem build_cases (b : Builder V) :
    (∃ start, b.Complete start ∧ b.build = .ok (b.frozen start)) ∨
      (∀ start, ¬ b.Complete start) ∧ ∃ fault, b.build = .error (.config fault) := by
  simp only [complete_iff]
  unfold build
  -- Once the refusals drop their continuations, each check continues in one place only.
  simp -zeta only [Except.throw_bind]
  dsimp only
  split
  · rename_i start started
    split
    · rename_i none
      exact .inr ⟨fun _ t => t.nonTerminals none, _, rfl⟩
    rename_i nonTerminals
    split
    · rename_i none
      exact .inr ⟨fun _ t => t.terminals none, _, rfl⟩
    rename_i terminals
    split
    · rename_i none
      exact .inr ⟨fun _ t => t.productions none, _, rfl⟩
    rename_i productions
    split
    · rename_i s found
      exact .inr ⟨fun _ t => not_of_find? found t.nonTerminal, lookup_bind_throw s _⟩
    rename_i nonTerminal
    split
    · rename_i s found
      exact .inr ⟨fun _ t => not_of_find? found t.terminal, lookup_bind_throw s _⟩
    rename_i terminal
    split
    · rename_i s found
      exact .inr ⟨fun _ t => not_of_find? found t.declared, lookup_bind_throw s _⟩
    rename_i declared
    split
    · rename_i s found
      exact .inr ⟨fun _ t => not_of_find? found t.owned, lookup_bind_throw s _⟩
    rename_i owned
    split
    · rename_i startDeclared
      exact .inl ⟨start, {
        started := started
        nonTerminals := nonTerminals
        terminals := terminals
        productions := productions
        nonTerminal := forall_of_find? nonTerminal
        terminal := forall_of_find? terminal
        declared := forall_of_find? declared
        owned := forall_of_find? owned
        startDeclared := startDeclared }, rfl⟩
    · rename_i undeclared
      refine .inr ⟨fun other t => undeclared ?_, lookup_bind_throw start _⟩
      obtain rfl : start = other := Option.some.inj (started.symm.trans t.started)
      exact t.startDeclared
  · rename_i none
    exact .inr ⟨fun start t => none start t.started, _, rfl⟩

/-- Whatever `build` accepts is what was declared, and complete. -/
theorem build_eq_ok_iff :
    b.build = .ok g ↔ ∃ start, b.Complete start ∧ g = b.frozen start := by
  rcases b.build_cases with ⟨start, complete, ok⟩ | ⟨incomplete, fault, refused⟩
  · rw [ok]
    constructor
    · rintro h
      exact ⟨start, complete, (Except.ok.inj h).symm⟩
    · rintro ⟨other, complete', rfl⟩
      obtain rfl : start = other := Option.some.inj (complete.started.symm.trans complete'.started)
      rfl
  · rw [refused]
    constructor
    · exact nofun
    · rintro ⟨start, complete, -⟩
      exact absurd complete (incomplete start)

end Builder

end GrammarEvolution
