import GrammarEvolution.Tree.Basic

/-!
Context-free grammars whose symbols are compared by number.

A symbol is a non-terminal or one of three kinds of terminal, and terminals carry meaning: a
constant is a value, a variable reads a binding, an operation is a function of operands and
bindings. Names are for people only; two symbols may share one. A grammar lists its symbols and
productions in the order of their declaration, and that order is their number.
-/

namespace GrammarEvolution

/-- The number of a production in its grammar. -/
abbrev ProductionId := Nat

/-- A grammar symbol over values `V`. -/
inductive Symbol (V : Type) where
  | nonTerminal (name : String)
  | constant (name : String) (value : V)
  /-- Reads the binding at `index`. -/
  | var (name : String) (index : Nat)
  /-- Acts on its operands, in order, and on all bindings. -/
  | operation (name : String) (apply : List V → List V → V)

namespace Symbol

variable {V : Type}

def name : Symbol V → String
  | nonTerminal name | constant name _ | var name _ | operation name _ => name

def isNonTerminal : Symbol V → Bool
  | nonTerminal _ => true
  | _ => false

def isVariable : Symbol V → Bool
  | var .. => true
  | _ => false

def isOperation : Symbol V → Bool
  | operation .. => true
  | _ => false

end Symbol

/-- A rewrite rule. An operation on the right-hand side stands first there. -/
structure Production where
  lhs : SymbolId
  rhs : List SymbolId
deriving DecidableEq, Repr, Inhabited

/-- Symbols and productions by number, the declared symbols, and where derivations start. -/
structure Grammar (V : Type) where
  symbols : Array (Symbol V)
  nonTerminals : List SymbolId
  terminals : List SymbolId
  productions : Array Production
  start : SymbolId

namespace Grammar

variable {V : Type} (g : Grammar V)

def symbol? (s : SymbolId) : Option (Symbol V) := g.symbols[s]?

/-- The name of a symbol, blank for a number that is no symbol. -/
def name (s : SymbolId) : String := ((g.symbol? s).map Symbol.name).getD ""

def isNonTerminal (s : SymbolId) : Bool := (g.symbol? s).any Symbol.isNonTerminal

def isOperation (s : SymbolId) : Bool := (g.symbol? s).any Symbol.isOperation

/-- The right-hand side of a production, empty for a number that is no production. -/
def rhs (p : ProductionId) : List SymbolId := (g.productions[p]?.map Production.rhs).getD []

/-- The productions whose left-hand side is `s`, in order of declaration. None for terminals. -/
def productionsOf (s : SymbolId) : List ProductionId :=
  (List.range g.productions.size).filter fun p => g.productions[p]?.any (·.lhs == s)

/-- Whether `lhs` may be rewritten to `rhs` in one step. -/
def hasProduction (lhs : SymbolId) (rhs : List SymbolId) : Bool :=
  g.productions.contains ⟨lhs, rhs⟩

end Grammar

end GrammarEvolution
