import GrammarEvolution.Grammar.Basic
import GrammarEvolution.Text.Description
import GrammarEvolution.Text.Quoted

/-!
Grammars as descriptions: every part of a grammar by its kind, symbols and productions in order.
What an operation does is not described.
-/

namespace GrammarEvolution

/-- Values that have a description. -/
class Described (V : Type) where
  describe : V → Description

instance : Described Int64 where
  describe n := .atom (toString n.toInt)

instance : Described String where
  describe text := .atom (Text.quoted text)

def describeSymbolId (s : SymbolId) : Description :=
  .handle "SymbolId" s

def Symbol.describe {V : Type} [Described V] : Symbol V → Description
  | nonTerminal name => .tuple "NonTerminal" [.atom (Text.quoted name)]
  | constant name value => .tuple "Constant" [.atom (Text.quoted name), Described.describe value]
  | var name index => .tuple "Variable" [.atom (Text.quoted name), .atom (toString index)]
  | operation name _ => .tuple "Operation" [.atom (Text.quoted name)]

def Production.describe (p : Production) : Description :=
  .record "Production" [("lhs", describeSymbolId p.lhs),
    ("rhs", .list (p.rhs.map describeSymbolId))]

def Grammar.describe {V : Type} [Described V] (g : Grammar V) : Description :=
  .record "Grammar" [
    ("symbols", .list (g.symbols.toList.map Symbol.describe)),
    ("non_terminals", .list (g.nonTerminals.map describeSymbolId)),
    ("terminals", .list (g.terminals.map describeSymbolId)),
    ("productions", .list (g.productions.toList.map Production.describe)),
    ("start", describeSymbolId g.start)]

end GrammarEvolution
