import GrammarEvolution.Json.Basic
import GrammarEvolution.Json.Token

/-!
Reading JSON text.

The reader takes token after token and keeps the arrays and objects that are still open on a
stack, so nesting may be of any depth. It accepts exactly one value, with nothing after it.
-/

namespace GrammarEvolution

namespace Json

/-- An array or object whose end has not been read. What is gathered is gathered backwards. -/
inductive Unfinished where
  | array (items : List Json)
  /-- An object that waits for the value of `name`. -/
  | object (members : List (Option String × Json)) (name : Option String)

/-- What the reader waits for, and the open arrays and objects around it, innermost first. -/
inductive Reader where
  | forValue (around : List Unfinished)
  /-- A value, or the end of an array that has just been opened. -/
  | forValueOrEnd (around : List Unfinished)
  | forName (members : List (Option String × Json)) (around : List Unfinished)
  /-- A name, or the end of an object that has just been opened. -/
  | forNameOrEnd (around : List Unfinished)
  | forColon (members : List (Option String × Json)) (name : Option String)
      (around : List Unfinished)
  | afterItem (items : List Json) (around : List Unfinished)
  | afterMember (members : List (Option String × Json)) (around : List Unfinished)
  | finished (value : Json)

namespace Reader

/-- Takes in a value that has been read to its end. -/
def complete (value : Json) : List Unfinished → Reader
  | [] => finished value
  | .array items :: around => afterItem (value :: items) around
  | .object members name :: around => afterMember ((name, value) :: members) around

/-- Starts a value. -/
def start (around : List Unfinished) : Token → Option Reader
  | .openArray => some (forValueOrEnd around)
  | .openObject => some (forNameOrEnd around)
  | .null => some (complete .null around)
  | .bool b => some (complete (.bool b) around)
  | .integer i => some (complete (.integer i) around)
  | .decimal numeral => some (complete (.decimal numeral) around)
  | .string content => some (complete (.string content) around)
  | _ => none

def step : Reader → Token → Option Reader
  | forValue around, token => start around token
  | forValueOrEnd around, .closeArray => some (complete (.array []) around)
  | forValueOrEnd around, token => start (.array [] :: around) token
  | forName members around, .string name => some (forColon members name around)
  | forNameOrEnd around, .closeObject => some (complete (.object []) around)
  | forNameOrEnd around, .string name => some (forColon [] name around)
  | forColon members name around, .colon => some (forValue (.object members name :: around))
  | afterItem items around, .comma => some (forValue (.array items :: around))
  | afterItem items around, .closeArray => some (complete (.array items.reverse) around)
  | afterMember members around, .comma => some (forName members around)
  | afterMember members around, .closeObject => some (complete (.object members.reverse) around)
  | _, _ => none

end Reader

/-- The value that a text stands for, if it is JSON. -/
def parse? (text : String) : Option Json := do
  match ← (← tokens text).foldlM Reader.step (.forValue []) with
  | .finished value => return value
  | _ => none

end Json

end GrammarEvolution
