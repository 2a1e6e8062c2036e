/-!
Failures as causes.

Every function of the library that can fail names what went wrong by a constructor and leaves the
wording to `Error.message`. The causes fall into five kinds: the setup of a grammar or of a run is
malformed, a grammar has a non-terminal without a finite derivation, a tree edit does not fit, a
tree has no value, and a root symbol needs more depth than there is. An operator that finds no
legal move does not fail; it answers no tree.
-/

namespace GrammarEvolution

/-- What is wrong with the setup of a grammar or of a run. Names are those of the symbols. -/
inductive ConfigFault where
  /-- A handle that no symbol of this grammar has. -/
  | foreignSymbol (symbol : Nat)
  | terminalLhs (name : String)
  | emptyRhs (lhs : String)
  | severalOperations (lhs : String) (count : Nat)
  /-- A right-hand side that is one operation and nothing for it to act on. -/
  | loneOperation (lhs : String)
  | noStart
  | noNonTerminals
  | noTerminals
  | noProductions
  | terminalAmongNonTerminals (name : String)
  | nonTerminalAmongTerminals (name : String)
  | undeclaredSymbol (name : String)
  | barrenNonTerminal (name : String)
  | undeclaredStart (name : String)
  /-- Growth was asked to start from a terminal. -/
  | terminalRoot (name : String)
  | populationTooSmall (size : Nat)
  | noOperators
  | shareCount (operators shares : Nat)
  | allSharesZero (shares : List Nat)
  | crossoverParents (given : Nat)
  | mutationParents
  | reproductionParents
  | initialPopulationTooSmall (size : Nat)
  | emptyPopulation
  /-- A fault that somebody else's operator states in its own words. -/
  | stated (text : String)
deriving DecidableEq, Repr

/-- Why a grammar supports no finite derivation. -/
inductive GrammarFault where
  /-- The declared non-terminals that no finite derivation starts from. -/
  | unproductive (names : List String)
  /-- A root symbol that was never declared and so has no productions. -/
  | noDerivation (name : String)
deriving DecidableEq, Repr

/-- Why a tree or an edit of it does not fit. -/
inductive StructuralFault where
  | rootHasNoPosition
  | missingFromParent (node parent : Nat)
  | foreignProduction (symbol lhs : String)
  | alreadyExpanded (name : String)
  | notAProduction (lhs : String) (rhs : List String)
  | terminalWithChildren (name : String)
  | noFittingProduction (name : String) (depth : Nat)
deriving DecidableEq, Repr

/-- Why a tree has no value. -/
inductive EvaluationFault where
  | unboundVariable (name : String) (index : Nat)
  | operationAlone (name : String)
  | childlessNonTerminal (name : String)
  | bareOperation (name : String)
  | headNotOperation (name found : String)
deriving DecidableEq, Repr

/-- Everything that can go wrong. -/
inductive Error where
  | config (fault : ConfigFault)
  | grammar (fault : GrammarFault)
  | structural (fault : StructuralFault)
  | evaluation (fault : EvaluationFault)
  /-- The root symbol needs a deeper tree than the remaining depth allows. -/
  | depthUnsatisfiable (required available : Nat)
deriving DecidableEq, Repr

/-! ### Wording -/

namespace ConfigFault

def message : ConfigFault → String
  | foreignSymbol symbol => s!"symbol #{symbol} does not belong to this grammar"
  | terminalLhs name => s!"production lhs {name} is not a non-terminal"
  | emptyRhs lhs => s!"production of {lhs} has no rhs"
  | severalOperations lhs count => s!"production of {lhs} has {count} operations"
  | loneOperation lhs => s!"production of {lhs} has an operation without operands"
  | noStart => "no start symbol"
  | noNonTerminals => "no non-terminals declared"
  | noTerminals => "no terminals declared"
  | noProductions => "no productions declared"
  | terminalAmongNonTerminals name => s!"{name} is declared as a non-terminal but is a terminal"
  | nonTerminalAmongTerminals name => s!"{name} is declared as a terminal but is a non-terminal"
  | undeclaredSymbol name => s!"productions use undeclared symbol {name}"
  | barrenNonTerminal name => s!"non-terminal {name} has no productions"
  | undeclaredStart name => s!"start symbol {name} is not a declared non-terminal"
  | terminalRoot name => s!"cannot grow trees from terminal {name}"
  | populationTooSmall size => s!"population size must be at least 2, got {size}"
  | noOperators => "no genetic operators given"
  | shareCount operators shares => s!"{operators} operators but {shares} percentages"
  | allSharesZero shares =>
      let listed := String.intercalate ", " (shares.map fun share => s!"{share}")
      s!"operator percentages [{listed}] never select an operator"
  | crossoverParents given => s!"crossover needs two parents, got {given}"
  | mutationParents => "mutation needs a parent"
  | reproductionParents => "reproduction needs a parent"
  | initialPopulationTooSmall size => s!"initial population needs at least 2 trees, got {size}"
  | emptyPopulation => "cannot breed from an empty population"
  | stated text => text

end ConfigFault

namespace GrammarFault

/-- The names are listed in order; a list that comes out blank is paraphrased. -/
def message : GrammarFault → String
  | unproductive names =>
      let listed := String.intercalate ", " names
      let stuck := if listed.isEmpty then "some productions" else listed
      s!"no finite derivation for {stuck}"
  | noDerivation name => s!"{name} has no derivation"

end GrammarFault

namespace StructuralFault

def message : StructuralFault → String
  | rootHasNoPosition => "root node has no position"
  | missingFromParent node parent =>
      s!"node {node} is missing from the children of its parent {parent}"
  | foreignProduction symbol lhs => s!"cannot expand {symbol} with a production of {lhs}"
  | alreadyExpanded name => s!"{name} is already expanded"
  | notAProduction lhs rhs =>
      let spelled := String.intercalate " " rhs
      s!"{lhs} ::= {spelled} is not a production"
  | terminalWithChildren name => s!"terminal {name} has children"
  | noFittingProduction name depth => s!"no production of {name} fits in depth {depth}"

end StructuralFault

namespace EvaluationFault

def message : EvaluationFault → String
  | unboundVariable name index => s!"no binding for {name} at index {index}"
  | operationAlone name => s!"operation {name} cannot be evaluated on its own"
  | childlessNonTerminal name => s!"{name} has no children"
  | bareOperation name => s!"{name} derives a bare operation"
  | headNotOperation name found => s!"{name} must start with an operation, found {found}"

end EvaluationFault

namespace Error

/-- The text of a failure: its kind, then its cause. -/
def message : Error → String
  | config fault => "invalid configuration: " ++ fault.message
  | grammar fault => "grammar is not well-founded: " ++ fault.message
  | structural fault => "structural invariant violated: " ++ fault.message
  | evaluation fault => "cannot evaluate tree: " ++ fault.message
  | depthUnsatisfiable required available =>
      s!"root symbol needs depth {required} but only {available} is available"

end Error

end GrammarEvolution
