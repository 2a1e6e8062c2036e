import GrammarEvolution.Grammar.Basic

/-!
Written forms of trees and grammars, by symbol names.

`display` is function notation: an operation stands before its operands in parentheses, and a node
with one child is written as that child. `leaves` strings the childless nodes together, and
`derivation` writes every node. `summary` lists the parts of a grammar.
-/

namespace GrammarEvolution

/-- The tree of symbol numbers as a text, which determines it. -/
def Rose.numbered : Rose SymbolId → String :=
  Rose.fold fun s children =>
    let below := String.intercalate " " (children.map (·.2))
    if children.isEmpty then s!"SymbolId({s})" else s!"SymbolId({s})({below})"

def Tree.numbered (t : Tree) : String :=
  t.shape.numbered

namespace Grammar

variable {V : Type} (g : Grammar V)

/-! ### Trees -/

/-- Function notation of a node, given its symbol and its children with theirs. -/
def displayStep (s : SymbolId) (children : List (Rose SymbolId × String)) : String :=
  match children with
  | [] => g.name s
  | [(_, only)] => only
  | (first, text) :: rest =>
      let texts := rest.map (·.2)
      if g.isOperation first.label then
        g.name first.label ++ "(" ++ String.intercalate "," texts ++ ")"
      else
        String.intercalate " " (text :: texts)

def displayShape : Rose SymbolId → String :=
  Rose.fold g.displayStep

/-- Function notation of the subtree at a node. -/
def displayAt (t : Tree) (n : Nat) : String :=
  g.displayShape (t.shapeAt n)

/-- Function notation of a tree. -/
def display (t : Tree) : String :=
  g.displayAt t t.root

/-- The names of the childless nodes, left to right, without anything between. -/
def leaves (t : Tree) : String :=
  String.join (t.shape.leafLabels.map g.name)

/-- Every node by name, its children after it in parentheses. -/
def derivationShape : Rose SymbolId → String :=
  Rose.fold fun s children =>
    if children.isEmpty then g.name s
    else g.name s ++ "(" ++ String.intercalate " " (children.map (·.2)) ++ ")"

def derivation (t : Tree) : String :=
  g.derivationShape t.shape

/-! ### Grammars -/

def productionText (p : Production) : String :=
  g.name p.lhs ++ " ::= " ++ String.intercalate " " (p.rhs.map g.name)

/-- The parts of a grammar, a line each. -/
def summary : String :=
  let names := fun (symbols : List SymbolId) => String.intercalate ", " (symbols.map g.name)
  let rules := String.intercalate ", " (g.productions.toList.map g.productionText)
  s!"Terminals: [{names g.terminals}]\n" ++
  s!"NonTerminals: [{names g.nonTerminals}]\n" ++
  s!"Productions: [{rules}]\n" ++
  s!"Start: {g.name g.start}"

end Grammar

end GrammarEvolution
