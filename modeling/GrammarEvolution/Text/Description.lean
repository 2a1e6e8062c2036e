/-!
Descriptions of structured data, and two ways to lay them out.

A description is an atom, a labelled description, or a bracketed group of descriptions. `inline`
puts everything on one line with commas between; `indented` gives every member of a group a line
of its own, four places further in, and a comma after it.
-/

namespace GrammarEvolution

/-- How a group opens and closes, and what stands inside the brackets on one line. -/
structure Brackets where
  opening : String
  padding : String
  closing : String
deriving DecidableEq, Repr

/-- What a value is, part by part. -/
inductive Description where
  | atom (text : String)
  | labelled (label : String) (value : Description)
  | group (brackets : Brackets) (members : List Description)

namespace Description

/-- A name with parts by place. -/
def tuple (name : String) (parts : List Description) : Description :=
  group ⟨name ++ "(", "", ")"⟩ parts

/-- A name with parts by label. -/
def record (name : String) (parts : List (String × Description)) : Description :=
  group ⟨name ++ " \x7b", " ", "\x7d"⟩ (parts.map fun (label, value) => labelled label value)

def list (members : List Description) : Description :=
  group ⟨"[", "", "]"⟩ members

/-- A number under the name of what it numbers. -/
def handle (name : String) (n : Nat) : Description :=
  tuple name [atom (toString n)]

/-! ### Layout -/

mutual

/-- The description on one line. -/
def inline : Description → String
  | atom text => text
  | labelled label value => label ++ ": " ++ inline value
  | group b members =>
      if members.isEmpty then b.opening ++ b.closing
      else b.opening ++ b.padding ++ String.intercalate ", " (inlineEach members) ++
        b.padding ++ b.closing

def inlineEach : List Description → List String
  | [] => []
  | d :: ds => inline d :: inlineEach ds

end

/-- The start of a line at a depth. -/
def margin (depth : Nat) : String :=
  "".pushn ' ' (4 * depth)

mutual

/-- The description with a line per member, of which the first is not moved in. -/
def indentedAt (depth : Nat) : Description → String
  | atom text => text
  | labelled label value => label ++ ": " ++ indentedAt depth value
  | group b members =>
      if members.isEmpty then b.opening ++ b.closing
      else b.opening ++ "\n" ++ String.join (indentedEach (depth + 1) members) ++
        margin depth ++ b.closing

def indentedEach (depth : Nat) : List Description → List String
  | [] => []
  | d :: ds => (margin depth ++ indentedAt depth d ++ ",\n") :: indentedEach depth ds

end

def indented (d : Description) : String :=
  d.indentedAt 0

end Description

end GrammarEvolution
