import GrammarEvolution.Proofs.Grammar.Validation

/-!
Grammars that a sequence of declarations ends in.

`Built g` says that some calls of a builder, refused ones included, end in a builder that builds
`g`. `Closed g` is what validation leaves behind: symbols are declared as what they are, what a
production uses is declared, and every declared non-terminal has a production.

* `frozen_of_build`: whatever `build` accepts is what was declared, and closed.
* `Closed.productionsOf_eq_nil_iff`: a non-terminal without productions is one that was never
  declared.
-/

namespace GrammarEvolution

namespace Builder

variable {V : Type}

/-! ### Calls -/

/-- A declaration as data. -/
inductive Call (V : Type) where
  | nonTerminal (name : String)
  | constant (name : String) (value : V)
  | fresh (name : String)
  | operation (name : String) (apply : List V → List V → V)
  | declareNonTerminals (symbols : List SymbolId)
  | declareTerminals (symbols : List SymbolId)
  | startAt (symbol : SymbolId)
  | production (lhs : SymbolId) (rhs : List SymbolId)
  | leafProductions (lhs : SymbolId) (leaves : List SymbolId)

/-- Carries a call out. -/
def Call.perform : Call V → Declaring V Unit
  | nonTerminal name => discard (Builder.nonTerminal name)
  | constant name value => discard (Builder.constant name value)
  | fresh name => discard (Builder.fresh name)
  | operation name apply => discard (Builder.operation name apply)
  | declareNonTerminals symbols => Builder.declareNonTerminals symbols
  | declareTerminals symbols => Builder.declareTerminals symbols
  | startAt symbol => Builder.startAt symbol
  | production lhs rhs => discard (Builder.production lhs rhs)
  | leafProductions lhs leaves => discard (Builder.leafProductions lhs leaves)

/-- The builder after a call, whether the call was refused or not. -/
def Call.run (b : Builder V) (c : Call V) : Builder V :=
  (c.perform.run.run b).2

/-- The builder after calls in order, from an empty one. -/
def after (calls : List (Call V)) : Builder V :=
  calls.foldl Call.run {}

end Builder

namespace Grammar

variable {V : Type} {g : Grammar V}

/-- Some sequence of builder calls ends in this grammar. -/
def Built (g : Grammar V) : Prop :=
  ∃ calls : List (Builder.Call V), (Builder.after calls).build = .ok g

/-- Symbols are declared as what they are, productions use declared symbols only, and every
declared non-terminal, the start symbol among them, has a production. -/
structure Closed (g : Grammar V) : Prop where
  isNonTerminal : ∀ s ∈ g.nonTerminals, g.isNonTerminal s = true
  isTerminal : ∀ s ∈ g.terminals, g.isNonTerminal s = false
  declared : ∀ p ∈ g.productions, ∀ s ∈ p.lhs :: p.rhs, s ∈ g.nonTerminals ∨ s ∈ g.terminals
  owned : ∀ s ∈ g.nonTerminals, ∃ p ∈ g.productions, p.lhs = s
  start : g.start ∈ g.nonTerminals

end Grammar

namespace Builder

variable {V : Type} {b : Builder V} {g : Grammar V} {start : SymbolId}

/-- What complete declarations are frozen into is closed. -/
theorem Complete.closed (c : b.Complete start) : (b.frozen start).Closed where
  isNonTerminal s hs := isNonTerminal_iff.mpr (c.nonTerminal s (List.mem_eraseDups.mp hs))
  isTerminal s hs := by
    obtain ⟨symbol, found, kind⟩ := c.terminal s (List.mem_eraseDups.mp hs)
    rw [Grammar.isNonTerminal, Grammar.symbol?, frozen, found, Option.any_some, kind]
  declared p hp s hs := by
    rw [frozen, List.mem_eraseDups, List.mem_eraseDups]
    exact c.declared p hp s hs
  owned s hs := c.owned s (List.mem_eraseDups.mp hs)
  start := List.mem_eraseDups.mpr c.startDeclared

/-- Whatever `build` accepts has the symbols and productions that were declared, and is closed. -/
theorem frozen_of_build (h : b.build = .ok g) :
    g.symbols = b.symbols ∧ g.productions = b.productions ∧ g.Closed := by
  obtain ⟨start, complete, rfl⟩ := build_eq_ok_iff.mp h
  exact ⟨rfl, rfl, complete.closed⟩

end Builder

namespace Grammar

variable {V : Type} {g : Grammar V} {s : SymbolId} {p : ProductionId}

theorem Built.closed (h : g.Built) : g.Closed := by
  obtain ⟨calls, built⟩ := h
  exact (Builder.frozen_of_build built).2.2

/-! ### Productions by number -/

theorem mem_productionsOf_iff :
    p ∈ g.productionsOf s ↔ ∃ production, g.productions[p]? = some production ∧
      production.lhs = s := by
  rw [productionsOf, List.mem_filter, List.mem_range]
  constructor
  · rintro ⟨-, owner⟩
    cases found : g.productions[p]? with
    | none => simp [found] at owner
    | some production => exact ⟨production, rfl, by simpa [found] using owner⟩
  · rintro ⟨production, found, rfl⟩
    exact ⟨(Array.getElem?_eq_some_iff.mp found).1, by simp [found]⟩

theorem rhs_eq {production : Production} (found : g.productions[p]? = some production) :
    g.rhs p = production.rhs := by
  rw [rhs, found]
  rfl

/-- A right-hand side may stand below the symbol that its production belongs to. -/
theorem hasProduction_of_mem_productionsOf (h : p ∈ g.productionsOf s) :
    g.hasProduction s (g.rhs p) = true := by
  obtain ⟨production, found, rfl⟩ := mem_productionsOf_iff.mp h
  rw [hasProduction, rhs_eq found, Array.contains_iff_mem]
  exact Array.mem_of_getElem? found

theorem hasProduction_iff {below : List SymbolId} :
    g.hasProduction s below = true ↔ ∃ p ∈ g.productionsOf s, g.rhs p = below := by
  constructor
  · intro h
    obtain ⟨p, found⟩ := Array.getElem?_of_mem (Array.contains_iff_mem.mp h)
    exact ⟨p, mem_productionsOf_iff.mpr ⟨_, found, rfl⟩, rhs_eq found⟩
  · rintro ⟨p, hp, rfl⟩
    exact hasProduction_of_mem_productionsOf hp

namespace Closed

variable (h : g.Closed)

include h

/-- A non-terminal on a right-hand side has been declared. -/
theorem mem_nonTerminals_of_mem_rhs (hs : s ∈ g.rhs p) (kind : g.isNonTerminal s = true) :
    s ∈ g.nonTerminals := by
  cases found : g.productions[p]? with
  | none =>
      rw [rhs, found] at hs
      cases hs
  | some production =>
      rw [rhs_eq found] at hs
      have used := h.declared production (Array.mem_of_getElem? found) s
        (List.mem_cons_of_mem _ hs)
      rcases used with declared | terminal
      · exact declared
      · rw [h.isTerminal s terminal] at kind
        cases kind

/-- A non-terminal without productions is one that was never declared. -/
theorem productionsOf_eq_nil_iff (kind : g.isNonTerminal s = true) :
    g.productionsOf s = [] ↔ s ∉ g.nonTerminals := by
  constructor
  · intro none declared
    obtain ⟨production, mem, owner⟩ := h.owned s declared
    obtain ⟨p, found⟩ := Array.getElem?_of_mem mem
    have : p ∈ g.productionsOf s := mem_productionsOf_iff.mpr ⟨production, found, owner⟩
    rw [none] at this
    cases this
  · intro undeclared
    refine List.eq_nil_iff_forall_not_mem.mpr fun p hp => undeclared ?_
    obtain ⟨production, found, rfl⟩ := mem_productionsOf_iff.mp hp
    have used := h.declared production (Array.mem_of_getElem? found) production.lhs
      List.mem_cons_self
    rcases used with declared | terminal
    · exact declared
    · rw [h.isTerminal _ terminal] at kind
      cases kind

end Closed

/-! ### A built grammar -/

/-- `pair ::= pair pair | one`. -/
def pairs : Grammar Nat where
  symbols := #[.nonTerminal "pair", .constant "one" 1]
  nonTerminals := [0]
  terminals := [1]
  productions := #[⟨0, [0, 0]⟩, ⟨0, [1]⟩]
  start := 0

theorem pairs_built : pairs.Built := by
  refine ⟨[.nonTerminal "pair", .constant "one" 1, .declareNonTerminals [0],
    .declareTerminals [1], .startAt 0, .production 0 [0, 0], .production 0 [1]], ?_⟩
  with_unfolding_all rfl

end Grammar

end GrammarEvolution
