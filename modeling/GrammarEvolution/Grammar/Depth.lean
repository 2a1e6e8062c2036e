import GrammarEvolution.Grammar.Basic

/-!
Depth bounds for derivations.

The length of a production is 1 when its right-hand side is all terminal and otherwise one more
than the largest length of a non-terminal there; the length of a non-terminal is the smallest
length among its productions. Lengths are resolved by passes over the productions in order of
declaration, and the length of a production is settled the first time all its non-terminals have
one. A shorter production found later does not shorten it, so lengths may exceed the least depth
and may depend on the order of declaration; but every length is the height of some derivation, and
so growth that stays within lengths meets no dead end.
-/

namespace GrammarEvolution

/-- For every production its length, as far as it is settled. -/
structure DepthTable where
  lengths : Array (Option Nat)
deriving DecidableEq, Repr

namespace DepthTable

variable {V : Type} (g : Grammar V) (d : DepthTable)

def productionLength (p : ProductionId) : Option Nat :=
  d.lengths.getD p none

/-- The smallest settled length among the productions of a symbol. Terminals have none. -/
def symbolLength (s : SymbolId) : Option Nat :=
  ((g.productionsOf s).filterMap d.productionLength).min?

/-- Whether a derivation of `s` can be had within a depth. Terminals always fit. -/
def fits (s : SymbolId) (depth : Nat) : Bool :=
  (d.symbolLength g s).all (· ≤ depth)

/-! ### Resolution -/

/-- The length that a right-hand side gives its production, once all its non-terminals have one. -/
def lengthOf (rhs : List SymbolId) : Option Nat := do
  let below ← (rhs.filter g.isNonTerminal).mapM (d.symbolLength g)
  return below.foldl max 0 + 1

/-- Settles one production if it is open and can be settled now. -/
def settle (p : ProductionId) : DepthTable :=
  match d.productionLength p with
  | some _ => d
  | none => ⟨d.lengths.setIfInBounds p (d.lengthOf g (g.rhs p))⟩

/-- One pass over all productions. -/
def pass : DepthTable :=
  (List.range g.productions.size).foldl (settle g) d

def complete : Bool :=
  d.lengths.all Option.isSome

/-- Passes until every production is settled, a given number at most. -/
def passes : Nat → DepthTable → DepthTable
  | 0, d => d
  | k + 1, d => if d.complete then d else passes k (d.pass g)

/-- The table of a grammar. A pass that settles nothing shows that none after it would, so as many
passes as there are productions are enough; what is then still open has no finite derivation. -/
def ofGrammar : Except Error DepthTable :=
  let n := g.productions.size
  let d := passes g n ⟨Array.replicate n none⟩
  if d.complete then pure d
  else
    let stuck := g.nonTerminals.filter fun s => (d.symbolLength g s).isNone
    throw (.grammar (.unproductive (stuck.map g.name)))

end DepthTable

end GrammarEvolution
