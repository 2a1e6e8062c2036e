import GrammarEvolution.Grammar.Basic

/-!
The value of a tree under bindings.

A constant is its value and a variable reads its binding. A non-terminal with one child has the
value of that child; with more, the first must be an operation, which is applied to the values of
the others. The errors of operands win over each other from left to right.
-/

namespace GrammarEvolution

namespace Grammar

variable {V : Type} (g : Grammar V) (bindings : List V)

/-- The value of a node, given its symbol and its children with their values. -/
def evalStep (s : SymbolId) (children : List (Rose SymbolId × Except Error V)) : Except Error V :=
  match g.symbol? s with
  | some (.constant _ value) => pure value
  | some (.var name index) =>
      match bindings[index]? with
      | some value => pure value
      | none => throw (.evaluation (.unboundVariable name index))
  | some (.operation name _) => throw (.evaluation (.operationAlone name))
  | some (.nonTerminal name) =>
      match children with
      | [] => throw (.evaluation (.childlessNonTerminal name))
      | [(only, value)] =>
          if g.isOperation only.label then throw (.evaluation (.bareOperation name)) else value
      | (first, _) :: operands =>
          match g.symbol? first.label with
          | some (.operation _ apply) => do
              let values ← operands.mapM (·.2)
              return apply values bindings
          | _ => throw (.evaluation (.headNotOperation name (g.name first.label)))
  | none => throw (.config (.foreignSymbol s))

/-- The value of a derivation. -/
def evalShape : Rose SymbolId → Except Error V :=
  Rose.fold (g.evalStep bindings)

/-- The value of the subtree at a node. -/
def evalAt (t : Tree) (n : Nat) : Except Error V :=
  g.evalShape bindings (t.shapeAt n)

/-- The value of a tree. -/
def eval (t : Tree) : Except Error V :=
  g.evalAt bindings t t.root

end Grammar

end GrammarEvolution
