/-!
Tokens of JSON text.

`Scan` reads a text character by character. Between tokens it skips blanks; letters, digits, signs
and points gather into a word, which must be one of the three literals or a numeral; a string
gathers code units, and its escapes are resolved at the end, where the halves of a surrogate pair
find each other.
-/

namespace GrammarEvolution

namespace Json

inductive Token where
  | openArray
  | closeArray
  | openObject
  | closeObject
  | colon
  | comma
  | null
  | bool (value : Bool)
  | integer (value : Int)
  | decimal (numeral : String)
  /-- No text if half of a surrogate pair is left over. -/
  | string (content : Option String)
deriving DecidableEq, Repr

/-! ### Words -/

/-- The digits at the start of a list, and what follows them. -/
def digits (cs : List Char) : List Char × List Char :=
  (cs.takeWhile Char.isDigit, cs.dropWhile Char.isDigit)

def natural (digits : List Char) : Nat :=
  digits.foldl (fun n c => 10 * n + (c.toNat - '0'.toNat)) 0

/-- Whether what follows the whole part of a numeral is an exponent, or nothing. -/
def isExponent : List Char → Bool
  | [] => true
  | e :: rest =>
      let unsigned := match rest with
        | '+' :: more | '-' :: more => more
        | _ => rest
      (e == 'e' || e == 'E') && !unsigned.isEmpty && unsigned.all Char.isDigit

/-- Whether what follows the whole part of a numeral is a fraction, an exponent, or both. -/
def isFraction : List Char → Bool
  | '.' :: rest =>
      let (places, more) := digits rest
      !places.isEmpty && isExponent more
  | rest => isExponent rest

/-- The number that a word stands for. The whole part has no needless zero in front. -/
def numeral (word : List Char) : Option Token :=
  let (negative, unsigned) := match word with
    | '-' :: rest => (true, rest)
    | _ => (false, word)
  let (whole, rest) := digits unsigned
  if whole.isEmpty || (whole.length > 1 && whole.head? == some '0') || !isFraction rest then none
  else if !rest.isEmpty || (negative && whole == ['0']) then some (.decimal (String.ofList word))
  else if negative then some (.integer (-(natural whole : Int)))
  else some (.integer (natural whole))

def word (cs : List Char) : Option Token :=
  match String.ofList cs with
  | "null" => some .null
  | "true" => some (.bool true)
  | "false" => some (.bool false)
  | _ => numeral cs

/-! ### Strings -/

def isHighHalf (unit : Nat) : Bool := 0xd800 ≤ unit && unit < 0xdc00

def isLowHalf (unit : Nat) : Bool := 0xdc00 ≤ unit && unit < 0xe000

/-- The text of a list of code units, in which a high half must meet a low half. -/
def joinHalves : List Nat → Option (List Char)
  | [] => some []
  | high :: low :: rest =>
      if isHighHalf high then
        if isLowHalf low then
          (joinHalves rest).map
            (Char.ofNat (0x10000 + (high - 0xd800) * 0x400 + (low - 0xdc00)) :: ·)
        else none
      else if isLowHalf high then none
      else (joinHalves (low :: rest)).map (Char.ofNat high :: ·)
  | [unit] => if isHighHalf unit || isLowHalf unit then none else some [Char.ofNat unit]

def hexDigit (c : Char) : Option Nat :=
  if c.isDigit then some (c.toNat - '0'.toNat)
  else if 'a' ≤ c ∧ c ≤ 'f' then some (c.toNat - 'a'.toNat + 10)
  else if 'A' ≤ c ∧ c ≤ 'F' then some (c.toNat - 'A'.toNat + 10)
  else none

/-- The character that a letter stands for after a backslash. -/
def escaped : Char → Option Char
  | '"' => some '"'
  | '\\' => some '\\'
  | '/' => some '/'
  | 'b' => some '\x08'
  | 'f' => some '\x0c'
  | 'n' => some '\n'
  | 'r' => some '\r'
  | 't' => some '\t'
  | _ => none

/-! ### Scanning -/

/-- Where a scan stands. What is gathered is gathered backwards. -/
inductive Place where
  | between
  | inWord (gathered : List Char)
  | inString (units : List Nat)
  | afterBackslash (units : List Nat)
  /-- Inside a code point escape, with so many digits to come. -/
  | inHex (units : List Nat) (toCome value : Nat)
deriving DecidableEq, Repr

structure Scan where
  place : Place
  tokens : List Token
deriving DecidableEq, Repr

namespace Scan

def isBlank (c : Char) : Bool := c == ' ' || c == '\n' || c == '\r' || c == '\t'

def isWordChar (c : Char) : Bool :=
  c.isAlphanum || c == '-' || c == '+' || c == '.'

/-- A character outside words and strings. -/
def outside (tokens : List Token) (c : Char) : Option Scan :=
  if isBlank c then some ⟨.between, tokens⟩
  else if isWordChar c then some ⟨.inWord [c], tokens⟩
  else match c with
    | '"' => some ⟨.inString [], tokens⟩
    | '[' => some ⟨.between, .openArray :: tokens⟩
    | ']' => some ⟨.between, .closeArray :: tokens⟩
    | '\x7b' => some ⟨.between, .openObject :: tokens⟩
    | '\x7d' => some ⟨.between, .closeObject :: tokens⟩
    | ':' => some ⟨.between, .colon :: tokens⟩
    | ',' => some ⟨.between, .comma :: tokens⟩
    | _ => none

def step (s : Scan) (c : Char) : Option Scan :=
  match s.place with
  | .between => outside s.tokens c
  | .inWord gathered =>
      if isWordChar c then some { s with place := .inWord (c :: gathered) }
      else do outside ((← word gathered.reverse) :: s.tokens) c
  | .inString units =>
      if c = '"' then
        some ⟨.between, .string ((joinHalves units.reverse).map String.ofList) :: s.tokens⟩
      else if c = '\\' then some { s with place := .afterBackslash units }
      else if c.toNat < 0x20 then none
      else some { s with place := .inString (c.toNat :: units) }
  | .afterBackslash units =>
      if c = 'u' then some { s with place := .inHex units 3 0 }
      else do return { s with place := .inString ((← escaped c).toNat :: units) }
  | .inHex units toCome value => do
      let value := 16 * value + (← hexDigit c)
      match toCome with
      | 0 => return { s with place := .inString (value :: units) }
      | more + 1 => return { s with place := .inHex units more value }

/-- The tokens, once the text has ended outside a string. -/
def finish (s : Scan) : Option (List Token) :=
  match s.place with
  | .between => some s.tokens.reverse
  | .inWord gathered => do return (((← word gathered.reverse) :: s.tokens).reverse)
  | _ => none

end Scan

/-- The tokens of a text. -/
def tokens (text : String) : Option (List Token) := do
  (← text.toList.foldlM Scan.step ⟨.between, []⟩).finish

end Json

end GrammarEvolution
