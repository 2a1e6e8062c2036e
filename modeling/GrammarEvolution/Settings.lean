import GrammarEvolution.Json.Reader
import GrammarEvolution.Text.Description

/-!
The settings of a run, and their form in JSON.

Settings are read from an object or from an array in field order. What is not given keeps its
default, and a member that is no setting is passed over. Some settings have a second name; a
setting given twice, under whatever names, is refused. Numbers are whole and fit 64 bits.
-/

namespace GrammarEvolution

structure Settings where
  /-- No tree of any generation is deeper than this. -/
  maxDepth : Nat := 5
  populationSize : Nat := 100
  /-- The number of breedings after the initial population. -/
  generations : Nat := 100
  /-- Stop at a generation whose best fitness is 0. -/
  terminateOnOptimum : Bool := false
deriving DecidableEq, Repr

namespace Settings

inductive Field where
  | maxDepth
  | populationSize
  | generations
  | terminateOnOptimum
deriving DecidableEq, Repr

namespace Field

def all : List Field := [maxDepth, populationSize, generations, terminateOnOptimum]

def name : Field → String
  | maxDepth => "max_depth"
  | populationSize => "population_size"
  | generations => "generations"
  | terminateOnOptimum => "terminate_on_optimum"

/-- The other names of a setting. -/
def aliases : Field → List String
  | maxDepth => ["maxDepth"]
  | populationSize => ["populationSize"]
  | generations => []
  | terminateOnOptimum => ["terminate_on_max_fitness"]

def ofName? (name : String) : Option Field :=
  all.find? fun f => f.name == name || f.aliases.contains name

end Field

/-! ### Reading -/

/-- A whole number that fits 64 bits. -/
def size? : Json → Option Nat
  | .integer (.ofNat n) => if n < UInt64.size then some n else none
  | _ => none

def flag? : Json → Option Bool
  | .bool b => some b
  | _ => none

/-- The settings with one of them read from a value. -/
def put (s : Settings) (value : Json) : Field → Option Settings
  | .maxDepth => do return { s with maxDepth := ← size? value }
  | .populationSize => do return { s with populationSize := ← size? value }
  | .generations => do return { s with generations := ← size? value }
  | .terminateOnOptimum => do return { s with terminateOnOptimum := ← flag? value }

/-- Reads members in order; `given` are the settings that have been met. -/
def ofMembers (given : List Field) (s : Settings) :
    List (Option String × Json) → Option Settings
  | [] => some s
  | (none, _) :: _ => none
  | (some name, value) :: rest =>
      match Field.ofName? name with
      | none => ofMembers given s rest
      | some f =>
          if given.contains f then none
          else do ofMembers (f :: given) (← s.put value f) rest

/-- Reads items in field order. -/
def ofItems (s : Settings) : List Field → List Json → Option Settings
  | _, [] => some s
  | [], _ :: _ => none
  | f :: fields, item :: items => do ofItems (← s.put item f) fields items

def ofJson? : Json → Option Settings
  | .object members => ofMembers [] {} members
  | .array items => ofItems {} Field.all items
  | _ => none

def parse? (text : String) : Option Settings := do
  ofJson? (← Json.parse? text)

/-! ### Writing -/

def toJson (s : Settings) : Json :=
  .record [
    ("max_depth", .integer s.maxDepth),
    ("population_size", .integer s.populationSize),
    ("generations", .integer s.generations),
    ("terminate_on_optimum", .bool s.terminateOnOptimum)]

def describe (s : Settings) : Description :=
  .record "EngineParams" [
    ("max_depth", .atom (toString s.maxDepth)),
    ("population_size", .atom (toString s.populationSize)),
    ("generations", .atom (toString s.generations)),
    ("terminate_on_optimum", .atom (toString s.terminateOnOptimum))]

end Settings

end GrammarEvolution
