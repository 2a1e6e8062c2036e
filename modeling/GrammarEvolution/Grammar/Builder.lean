import GrammarEvolution.Grammar.Basic

/-!
Declaring a grammar.

A builder gathers symbols, declarations and productions; `build` validates the whole once and
freezes it. A declaration that is refused says why and leaves the builder usable. A production is
checked when it is declared, against the symbols there are by then; everything that needs the whole
picture waits for `build`. Handles that were never issued are found by both.
-/

namespace GrammarEvolution

/-- What has been declared so far. -/
structure Builder (V : Type) where
  symbols : Array (Symbol V) := #[]
  nonTerminals : List SymbolId := []
  terminals : List SymbolId := []
  productions : Array Production := #[]
  start : Option SymbolId := none

/-- A declaration: it may be refused, and what it did before that stays. -/
abbrev Declaring (V : Type) := ExceptT Error (StateM (Builder V))

namespace Builder

variable {V : Type}

/-! ### Symbols and declarations -/

/-- Enters a symbol and answers its number. -/
def enter (symbol : Symbol V) : Declaring V SymbolId := do
  let b ← get
  set { b with symbols := b.symbols.push symbol }
  return b.symbols.size

def nonTerminal (name : String) : Declaring V SymbolId := enter (.nonTerminal name)

def constant (name : String) (value : V) : Declaring V SymbolId := enter (.constant name value)

/-- Variables read the bindings in the order in which they are created. -/
def fresh (name : String) : Declaring V SymbolId := do
  let b ← get
  enter (.var name (b.symbols.toList.countP Symbol.isVariable))

def operation (name : String) (apply : List V → List V → V) : Declaring V SymbolId :=
  enter (.operation name apply)

def declareNonTerminals (symbols : List SymbolId) : Declaring V Unit :=
  modify fun b => { b with nonTerminals := b.nonTerminals ++ symbols }

def declareTerminals (symbols : List SymbolId) : Declaring V Unit :=
  modify fun b => { b with terminals := b.terminals ++ symbols }

def startAt (symbol : SymbolId) : Declaring V Unit :=
  modify fun b => { b with start := some symbol }

/-! ### Productions -/

section Lookup

variable (b : Builder V)

/-- The symbol behind a handle, which must be one that this builder issued. -/
def lookup (s : SymbolId) : Except Error (Symbol V) :=
  match b.symbols[s]? with
  | some symbol => pure symbol
  | none => throw (.config (.foreignSymbol s))

def isNonTerminal (s : SymbolId) : Bool := b.symbols[s]?.any Symbol.isNonTerminal

def isTerminal (s : SymbolId) : Bool := b.symbols[s]?.any (!·.isNonTerminal)

def isOperation (s : SymbolId) : Bool := b.symbols[s]?.any Symbol.isOperation

/-- The operations of a right-hand side before all else, either group in its own order. -/
def operationsFirst (rhs : List SymbolId) : List SymbolId :=
  rhs.filter b.isOperation ++ rhs.filter (!b.isOperation ·)

/-- The production that a left- and a right-hand side stand for. The left must be a non-terminal
and the right must not be empty; of operations it has one at most, which moves to the front and
does not stand alone. -/
def checkedProduction (lhs : SymbolId) (rhs : List SymbolId) : Except Error Production := do
  let owner ← b.lookup lhs
  unless owner.isNonTerminal do
    throw (.config (.terminalLhs owner.name))
  if rhs.isEmpty then
    throw (.config (.emptyRhs owner.name))
  let symbols ← rhs.mapM b.lookup
  let operations := symbols.countP Symbol.isOperation
  if operations > 1 then
    throw (.config (.severalOperations owner.name operations))
  if operations = 1 ∧ rhs.length = 1 then
    throw (.config (.loneOperation owner.name))
  return ⟨lhs, b.operationsFirst rhs⟩

end Lookup

/-- Declares that `lhs` may be rewritten to `rhs` and answers the number of the production. -/
def production (lhs : SymbolId) (rhs : List SymbolId) : Declaring V ProductionId := do
  let b ← get
  let p ← b.checkedProduction lhs rhs
  set { b with productions := b.productions.push p }
  return b.productions.size

/-- One production per leaf, in order. The first that is refused ends the list; the productions
declared before it stay. -/
def leafProductions (lhs : SymbolId) (leaves : List SymbolId) : Declaring V (List ProductionId) :=
  leaves.mapM fun leaf => production lhs [leaf]

/-! ### Validation -/

/-- The grammar that was declared, or the first thing that is wrong with it: something is missing;
a symbol is declared as what it is not; a production uses an undeclared symbol; a non-terminal has
no production; the start symbol is no declared non-terminal. -/
def build (b : Builder V) : Except Error (Grammar V) := do
  let some start := b.start | throw (.config .noStart)
  if b.nonTerminals.isEmpty then throw (.config .noNonTerminals)
  if b.terminals.isEmpty then throw (.config .noTerminals)
  if b.productions.isEmpty then throw (.config .noProductions)
  let nonTerminals := b.nonTerminals.eraseDups
  let terminals := b.terminals.eraseDups
  if let some s := nonTerminals.find? (!b.isNonTerminal ·) then
    throw (.config (.terminalAmongNonTerminals (← b.lookup s).name))
  if let some s := terminals.find? (!b.isTerminal ·) then
    throw (.config (.nonTerminalAmongTerminals (← b.lookup s).name))
  let used := b.productions.toList.flatMap fun p => p.lhs :: p.rhs
  if let some s := used.find? fun s => !(nonTerminals.contains s || terminals.contains s) then
    throw (.config (.undeclaredSymbol (← b.lookup s).name))
  if let some s := nonTerminals.find? fun s => !b.productions.any (·.lhs == s) then
    throw (.config (.barrenNonTerminal (← b.lookup s).name))
  unless nonTerminals.contains start do
    throw (.config (.undeclaredStart (← b.lookup start).name))
  return { symbols := b.symbols, nonTerminals, terminals, productions := b.productions, start }

end Builder

end GrammarEvolution
