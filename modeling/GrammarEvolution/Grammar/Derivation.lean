import GrammarEvolution.Grammar.Basic

/-!
Derivation steps on trees.

`expand` carries out one step at a childless node; `check` says whether every node of a tree is
such a step carried to its end, that is, whether terminals are leaves and the children of every
non-terminal spell one of its productions. Both state which symbol does not fit.
-/

namespace GrammarEvolution

namespace Grammar

variable {V : Type} (g : Grammar V)

/-- Puts the right-hand side of a production below a childless node that holds its left-hand
side. Answers the new nodes in order. -/
def expand (t : Tree) (n : Nat) (p : Production) : Except Error (List Nat × Tree) := do
  if t.symbol n ≠ p.lhs then
    throw (.structural (.foreignProduction (g.name (t.symbol n)) (g.name p.lhs)))
  unless t.isLeaf n do
    throw (.structural (.alreadyExpanded (g.name p.lhs)))
  return t.pushChildren n p.rhs

/-- Whether a symbol may stand above these symbols in a finished derivation. -/
def checkStep (s : SymbolId) (below : List SymbolId) : Except Error Unit := do
  if g.isNonTerminal s then
    unless g.hasProduction s below do
      throw (.structural (.notAProduction (g.name s) (below.map g.name)))
  else
    unless below.isEmpty do
      throw (.structural (.terminalWithChildren (g.name s)))

/-- Checks every step of a derivation, a node before its children. -/
def checkShape (r : Rose SymbolId) : Except Error Unit :=
  r.subtrees.forM fun u => g.checkStep u.label (u.children.map Rose.label)

/-- Checks that a tree is a finished derivation of this grammar. -/
def check (t : Tree) : Except Error Unit :=
  g.checkShape t.shape

end Grammar

end GrammarEvolution
