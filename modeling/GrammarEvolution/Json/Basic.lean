/-!
JSON values.

Numerals that are integers are integers; a numeral with a fraction, an exponent or the sign of a
negative zero is kept as it is written. A string whose escapes leave half of a surrogate pair
stands for no text. Members of an object keep their order, and a name may occur twice.
-/

namespace GrammarEvolution

inductive Json where
  | null
  | bool (value : Bool)
  | integer (value : Int)
  | decimal (numeral : String)
  | string (content : Option String)
  | array (items : List Json)
  | object (members : List (Option String × Json))

namespace Json

def text (content : String) : Json :=
  string (some content)

/-- An object whose members have these names. -/
def record (members : List (String × Json)) : Json :=
  object (members.map fun (name, value) => (some name, value))

/-- The first member of an object with a name. -/
def member? (name : String) : Json → Option Json
  | object members => members.lookup (some name)
  | _ => none

/-! ### Writing -/

/-- The two hexadecimal digits of a number below 256. -/
def hexPair (n : Nat) : String :=
  String.ofList [Nat.digitChar (n / 16), Nat.digitChar (n % 16)]

/-- The written form of one character of a string. Quotes, backslashes and controls are escaped. -/
def quoteChar (c : Char) : String :=
  if c = '"' then "\\\""
  else if c = '\\' then "\\\\"
  else if c = '\x08' then "\\b"
  else if c = '\x0c' then "\\f"
  else if c = '\n' then "\\n"
  else if c = '\r' then "\\r"
  else if c = '\t' then "\\t"
  else if c.toNat < 0x20 then "\\u00" ++ hexPair c.toNat
  else c.toString

/-- A string between quotes. The replacement character stands in for what is no text. -/
def quoted (content : Option String) : String :=
  "\"" ++ String.join ((content.getD "\ufffd").toList.map quoteChar) ++ "\""

mutual

/-- The value on one line without blanks. -/
def compact : Json → String
  | null => "null"
  | bool value => if value then "true" else "false"
  | integer value => toString value
  | decimal numeral => numeral
  | string content => quoted content
  | array items => "[" ++ String.intercalate "," (compactItems items) ++ "]"
  | object members => "\x7b" ++ String.intercalate "," (compactMembers members) ++ "\x7d"

def compactItems : List Json → List String
  | [] => []
  | item :: items => compact item :: compactItems items

def compactMembers : List (Option String × Json) → List String
  | [] => []
  | (name, value) :: members => (quoted name ++ ":" ++ compact value) :: compactMembers members

end

end Json

end GrammarEvolution
