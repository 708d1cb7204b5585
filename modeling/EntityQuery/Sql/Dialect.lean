import EntityQuery.Reading.Record

/-!
# Sql/Dialect — conventions that differ between databases

A dialect says how placeholders are written and how booleans are bound. Both have a default, and
three combinations have a name.
-/

namespace EntityQuery

/-- How placeholders are written. -/
inductive Placeholder where
  /-- A question mark for every parameter. -/
  | questionMark
  /-- A dollar sign and the number of the parameter, from one. -/
  | numbered
  deriving DecidableEq, Repr

/-- How booleans are bound. -/
inductive BooleanBinding where
  /-- As booleans. -/
  | native
  /-- As the texts `TRUE` and `FALSE`. -/
  | text
  deriving DecidableEq, Repr

/-- The conventions of a database. -/
structure Dialect where
  /-- How placeholders are written. -/
  placeholder : Placeholder := .questionMark
  /-- How booleans are bound. -/
  booleans : BooleanBinding := .native
  deriving DecidableEq, Repr

namespace Placeholder

/-- The names of the placeholders. -/
def names : List (String × Placeholder) :=
  [("questionMark", .questionMark), ("numbered", .numbered)]

/-- The name of a placeholder. -/
def name : Placeholder → String
  | .questionMark => "questionMark"
  | .numbered => "numbered"

/-- The placeholder of the parameter with a number. -/
def write (placeholder : Placeholder) (number : Nat) : String :=
  match placeholder with
  | .questionMark => "?"
  | .numbered => "$" ++ number.repr

end Placeholder

namespace BooleanBinding

/-- The names of the bindings. -/
def names : List (String × BooleanBinding) := [("native", .native), ("text", .text)]

/-- The name of a binding. -/
def name : BooleanBinding → String
  | .native => "native"
  | .text => "text"

end BooleanBinding

namespace Dialect

/-- Question marks and native booleans. -/
def generic : Dialect := {}

/-- Question marks and booleans as texts. -/
def sqlite : Dialect := { booleans := .text }

/-- Numbered placeholders and native booleans. -/
def postgres : Dialect := { placeholder := .numbered }

/-- The dialects that have a name. -/
def presets : List (String × Dialect) :=
  [("generic", generic), ("sqlite", sqlite), ("postgres", postgres)]

/-- The record of a dialect's fields. -/
def record (source : Source) : Record Dialect where
  name := "Dialect"
  closed := false
  fields := [
    ⟨"placeholder", false, fun node => do
      let placeholder ← Names.read source Placeholder.names node
      .ok fun dialect => { dialect with placeholder }⟩,
    ⟨"booleans", false, fun node => do
      let booleans ← Names.read source BooleanBinding.names node
      .ok fun dialect => { dialect with booleans }⟩]

/-- Reads a dialect. -/
def ofNode (source : Source) (node : Node) : Except Complaint Dialect :=
  (record source).read source {} node

/-- A dialect as a value. -/
def toJson (dialect : Dialect) : Json :=
  .obj [("placeholder", .str dialect.placeholder.name), ("booleans", .str dialect.booleans.name)]

end Dialect

end EntityQuery
