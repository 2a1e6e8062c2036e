import GrammarEvolution.Text.Shown

/-!
Quoted text.

A text is written between double quotes. The quote and the backslash are escaped by a backslash,
five controls by a letter or digit of their own, and any other character without a glyph by its
code point in hexadecimal.
-/

namespace GrammarEvolution

namespace Text

/-- The written form of one character. -/
def quoteChar (c : Char) : String :=
  if c = '\x00' then "\\0"
  else if c = '\t' then "\\t"
  else if c = '\r' then "\\r"
  else if c = '\n' then "\\n"
  else if c = '"' then "\\\""
  else if c = '\\' then "\\\\"
  else if isShown c then c.toString
  else "\\u\x7b" ++ String.ofList (Nat.toDigits 16 c.toNat) ++ "\x7d"

/-- A text between quotes. -/
def quoted (text : String) : String :=
  "\"" ++ String.join (text.toList.map quoteChar) ++ "\""

end Text

end GrammarEvolution
