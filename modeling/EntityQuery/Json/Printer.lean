import EntityQuery.Json.Basic
import EntityQuery.Json.Quoted
import EntityQuery.Number.Shortest

/-!
# Json/Printer — JSON values as text

`Json.compact` writes a value without any blank; `Json.pretty` puts every item and member on a line
of its own, two spaces deeper than its container, and writes an empty container in two characters.
Both keep the order of the members.
-/

namespace EntityQuery

namespace Number

/-- Doubles are written positionally from `10 ^ -5` up to sixteen integer digits, and with a signed
exponent outside that range. -/
def layout : Layout := ⟨-5, 15, "+"⟩

/-- A number as text; a double that is not finite has none and is written `null`. -/
def text : Number → String
  | .integer value => value.repr
  | .real value => if value.isFinite then layout.text value else "null"

example : (real ⟨0x8000000000000000⟩).text = "-0.0" := by decide +kernel
example : (real ⟨0x3ff8000000000000⟩).text = "1.5" := by decide +kernel
example : (real ⟨0x3ee4f8b588e368f1⟩).text = "0.00001" := by decide +kernel
example : (real ⟨0x3eb0c6f7a0b5ed8d⟩).text = "1e-6" := by decide +kernel
example : (real ⟨0x4341c37937e08000⟩).text = "1e+16" := by decide +kernel
example : (real ⟨1⟩).text = "5e-324" := by decide +kernel

end Number

namespace Json

/-- A value that has no parts. -/
def scalarChars : Json → List Char
  | .null => "null".toList
  | .bool true => "true".toList
  | .bool false => "false".toList
  | .num value => value.text.toList
  | .str value => Quoted.chars value
  | _ => []

/-! ## Without blanks -/

mutual

/-- The characters of a value. -/
def compactChars : Json → List Char
  | .arr items => '[' :: compactItems items ++ [']']
  | .obj members => '\x7b' :: compactMembers members ++ ['\x7d']
  | scalar => scalarChars scalar

/-- Items, with commas between. -/
def compactItems : List Json → List Char
  | [] => []
  | item :: [] => compactChars item
  | item :: rest => compactChars item ++ ',' :: compactItems rest

/-- Members, with commas between. -/
def compactMembers : List (String × Json) → List Char
  | [] => []
  | (key, value) :: [] => Quoted.chars key ++ ':' :: compactChars value
  | (key, value) :: rest =>
      Quoted.chars key ++ ':' :: compactChars value ++ ',' :: compactMembers rest

end

/-- A value on one line, without blanks. -/
def compact (value : Json) : String :=
  String.ofList value.compactChars

/-! ## Over several lines -/

/-- A new line at a depth of nesting. -/
def newLine (depth : Nat) : List Char :=
  '\n' :: List.replicate (2 * depth) ' '

mutual

/-- The characters of a value that stands at a depth of nesting. -/
def prettyChars (depth : Nat) : Json → List Char
  | .arr [] => ['[', ']']
  | .arr items => '[' :: prettyItems (depth + 1) items ++ newLine depth ++ [']']
  | .obj [] => ['\x7b', '\x7d']
  | .obj members => '\x7b' :: prettyMembers (depth + 1) members ++ newLine depth ++ ['\x7d']
  | scalar => scalarChars scalar

/-- Items, each on a line of its own. -/
def prettyItems (depth : Nat) : List Json → List Char
  | [] => []
  | item :: [] => newLine depth ++ prettyChars depth item
  | item :: rest => newLine depth ++ prettyChars depth item ++ ',' :: prettyItems depth rest

/-- Members, each on a line of its own. -/
def prettyMembers (depth : Nat) : List (String × Json) → List Char
  | [] => []
  | (key, value) :: [] =>
      newLine depth ++ Quoted.chars key ++ ':' :: ' ' :: prettyChars depth value
  | (key, value) :: rest =>
      newLine depth ++ Quoted.chars key ++ ':' :: ' ' :: prettyChars depth value
        ++ ',' :: prettyMembers depth rest

end

/-- A value over several lines, indented by two spaces. -/
def pretty (value : Json) : String :=
  String.ofList (value.prettyChars 0)

/-- A value over several lines, the last one ended. -/
def prettyLines (value : Json) : String :=
  value.pretty ++ "\n"

end Json

end EntityQuery
