import EntityQuery.Json.Fault
import EntityQuery.Json.Printer
import EntityQuery.Text.Shown

/-!
# Reading/Complaint — why a document was not read

A document is refused because its text is not JSON, because a value has the wrong shape, or because
a value of the right shape breaks a rule of the requests. Each cause is a constructor, `category`
says which of the three it is, and `message` has the wording.
-/

namespace EntityQuery

/-- What a value was found to be. -/
inductive Found where
  | null
  | bool (value : Bool)
  | num (value : Number)
  | str (value : String)
  | sequence
  | map
  deriving DecidableEq, Repr

/-- Why a document was not read. -/
inductive Complaint where
  /-- The text is not JSON. -/
  | fault (fault : Fault)
  /-- An array goes on after the last field of a record. -/
  | surplusItems
  /-- Neither a name nor an object with one name stands where one of several names is due. -/
  | noName
  /-- A value of another type is due. -/
  | wrongType (found : Found) (expected : String)
  /-- A value of the right type cannot be used. -/
  | wrongValue (found : Found) (expected : String)
  /-- A required field is missing. -/
  | missingField (name : String)
  /-- A field stands twice. -/
  | duplicateField (name : String)
  /-- A record that knows its fields has another one. -/
  | unknownField (name : String) (known : List String)
  /-- A name is not one of those that are due. -/
  | unknownName (name : String) (known : List String)
  /-- An array has too few or too many items. -/
  | wrongLength (length : Nat) (expected : String)
  /-- A value has none of the shapes that its type allows. -/
  | noShape (type : String)
  /-- A condition has operators of more than one family. -/
  | mixedFamilies (families : List String)
  /-- A text is not a date. -/
  | invalidDate (text : String)
  /-- An integer needs the sixty-fourth bit. -/
  | integerOutOfRange (value : Int)
  /-- A reserved key has no meaning. -/
  | reservedKey (key : String)
  /-- The negation of a group of clauses is not a boolean. -/
  | invalidNot
  deriving DecidableEq, Repr

namespace Found

/-- How a message names what was found. -/
def text : Found → String
  | .null => "null"
  | .bool true => "boolean `true`"
  | .bool false => "boolean `false`"
  | .num (.integer value) => "integer `" ++ value.repr ++ "`"
  | .num (.real value) => "floating point `" ++ (Number.real value).text ++ "`"
  | .str value => "string " ++ Shown.quote value
  | .sequence => "sequence"
  | .map => "map"

end Found

namespace Complaint

/-- A name as a message shows it. -/
def ticked (name : String) : String :=
  "`" ++ name ++ "`"

/-- The names that are due. -/
def choice : List String → String
  | [] => "there are no names"
  | [only] => ticked only
  | [first, second] => ticked first ++ " or " ++ ticked second
  | names => "one of " ++ ", ".intercalate (names.map ticked)

/-- The three kinds of complaint. -/
inductive Category where
  /-- The text ends too early. -/
  | ended
  /-- The text is not JSON, or goes on where it must not. -/
  | malformed
  /-- The text is JSON of the wrong shape. -/
  | shape
  deriving DecidableEq, Repr

/-- The kind of a complaint. -/
def category : Complaint → Category
  | .fault ⟨.ended, _⟩ => .ended
  | .fault ⟨.malformed, _⟩ => .malformed
  | .surplusItems => .malformed
  | .noName => .malformed
  | _ => .shape

/-- The wording of a complaint. -/
def message : Complaint → String
  | .fault ⟨.ended, _⟩ => "the text ends too early"
  | .fault ⟨.malformed, _⟩ => "the text is not JSON"
  | .surplusItems => "trailing characters"
  | .noName => "expected value"
  | .wrongType found expected => "invalid type: " ++ found.text ++ ", expected " ++ expected
  | .wrongValue found expected => "invalid value: " ++ found.text ++ ", expected " ++ expected
  | .missingField name => "missing field " ++ ticked name
  | .duplicateField name => "duplicate field " ++ ticked name
  | .unknownField name known => "unknown field " ++ ticked name ++ ", expected " ++ choice known
  | .unknownName name known => "unknown variant " ++ ticked name ++ ", expected " ++ choice known
  | .wrongLength length expected => "invalid length " ++ length.repr ++ ", expected " ++ expected
  | .noShape type => "data did not match any variant of untagged enum " ++ type
  | .mixedFamilies families =>
      "condition mixes operator families: " ++ ", ".intercalate families
  | .invalidDate text => "'" ++ text ++ "' is not a recognized date or timestamp"
  | .integerOutOfRange value => "integer " ++ value.repr ++ " does not fit in 64 signed bits"
  | .reservedKey key => "unknown reserved key '" ++ key ++ "'"
  | .invalidNot => "'$_not' must be a boolean"

end Complaint

end EntityQuery
