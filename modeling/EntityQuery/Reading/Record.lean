import EntityQuery.Json.Document
import EntityQuery.Reading.Complaint

/-!
# Reading/Record — reading typed values off a tree

A reader takes what it wants from a tree in the order of the text, and the first thing that does not
fit is its complaint. There are entries (any key, one type of value), items (one type) and records
(fields of fixed names). A record may be written as an object, or as an array of its fields in
order; a field stands at most once, one that is not required may be left out, and unknown fields are
passed over unless the record is closed.
-/

namespace EntityQuery

namespace Node

/-- What the node is, to a reader that wants something else. -/
def found : Node → Found
  | .null | .unreadable _ _ => .null
  | .bool value => .bool value
  | .num value => .num value
  | .str value => .str value
  | .arr _ _ => .sequence
  | .obj _ _ => .map

/-- Complains that something else is due, or of what keeps the node from being read at all. -/
def wrong {α : Type} (expected : String) : Node → Except Complaint α
  | .unreadable fault _ => .error (.fault fault)
  | node => .error (.wrongType node.found expected)

/-- A reader's complaint about a text that is not JSON. -/
def faulty {α : Type} (result : Except Fault α) : Except Complaint α :=
  result.mapError Complaint.fault

/-! ## Scalars -/

/-- A boolean. -/
def readBool : Node → Except Complaint Bool
  | .bool value => .ok value
  | node => node.wrong "a boolean"

/-- A text. -/
def readText : Node → Except Complaint String
  | .str value => .ok value
  | node => node.wrong "a string"

/-- An integer of 64 bits without a sign. -/
def readUnsigned : Node → Except Complaint UInt64
  | .num (.integer value) =>
      if 0 ≤ value then .ok (UInt64.ofNat value.toNat)
      else .error (.wrongValue (.num (.integer value)) "u64")
  | node => node.wrong "u64"

/-- A value, or nothing for `null`. -/
def readOption {α : Type} (read : Node → Except Complaint α) : Node → Except Complaint (Option α)
  | .null => .ok none
  | node => (read node).map some

/-! ## Containers -/

/-- The entries of an object. -/
def readEntries {α : Type} (read : Node → Except Complaint α) :
    Node → Except Complaint (Entries α)
  | .obj members stop => do
      let pairs ← members.mapM fun (key, node) => do
        let key ← faulty key
        let value ← read node
        .ok (key, value)
      faulty (close stop)
      .ok (Entries.ofList pairs)
  | node => node.wrong "a map"

/-- The items of an array. -/
def readItems {α : Type} (read : Node → Except Complaint α) : Node → Except Complaint (List α)
  | .arr items stop => do
      let values ← items.mapM read
      faulty (close stop)
      .ok values
  | node => node.wrong "a sequence"

/-! ## Values without faults -/

mutual

/-- A value as a tree. -/
def ofJson : Json → Node
  | .null => .null
  | .bool value => .bool value
  | .num value => .num value
  | .str value => .str value
  | .arr items => .arr (ofJsonItems items) none
  | .obj members => .obj (ofJsonMembers members) none

/-- Items as trees. -/
def ofJsonItems : List Json → List Node
  | [] => []
  | item :: rest => ofJson item :: ofJsonItems rest

/-- Members as trees. -/
def ofJsonMembers : List (String × Json) → List (Except Fault String × Node)
  | [] => []
  | (key, value) :: rest => (.ok key, ofJson value) :: ofJsonMembers rest

end

end Node

/-! ## One of several names -/

/-- Whether a value is read off a text or was read before. Either way it may have the same shapes,
but a misfit is worded differently. -/
inductive Source where
  | text
  | value
  deriving DecidableEq, Repr

namespace Names

variable {α : Type}

/-- The value of a name. -/
def lookup (names : List (String × α)) (name : String) : Except Complaint α :=
  match names.lookup name with
  | some value => .ok value
  | none => .error (.unknownName name (names.map Prod.fst))

/-- The `null` that may stand under a name. -/
def readUnit : Node → Except Complaint Unit
  | .null => .ok ()
  | node => node.wrong "unit"

/-- One of several names, by itself or as the only key of an object, over `null`. -/
def read (source : Source) (names : List (String × α)) (node : Node) : Except Complaint α :=
  match source, node with
  | _, .str name => lookup names name
  | .text, .obj ((key, unit) :: rest) stop => do
      let name ← Node.faulty key
      let value ← lookup names name
      readUnit unit
      if rest.isEmpty then Node.faulty (Node.close stop) else .error .noName
      .ok value
  | .text, .obj [] (some fault) => .error (.fault fault)
  | .text, .unreadable fault _ => .error (.fault fault)
  | .text, _ => .error .noName
  | .value, .obj [(key, unit)] _ => do
      let name ← Node.faulty key
      let value ← lookup names name
      readUnit unit
      .ok value
  | .value, .obj _ _ => .error (.wrongValue .map "map with a single key")
  | .value, node => node.wrong "string or map"

end Names

/-! ## Records -/

/-- A field of a record that is read into a state. -/
structure RecordField (σ : Type) where
  /-- The key. -/
  name : String
  /-- Whether the record needs the field. -/
  required : Bool
  /-- Reads the value and says what it does to the state. -/
  read : Node → Except Complaint (σ → σ)

/-- A record: its name and its fields in order. -/
structure Record (σ : Type) where
  /-- The name in messages. -/
  name : String
  /-- The fields, in the order of the array form. -/
  fields : List (RecordField σ)
  /-- Whether unknown fields are refused. -/
  closed : Bool

namespace Record

variable {σ : Type}

/-- The field of a name. -/
def field? (record : Record σ) (name : String) : Option (RecordField σ) :=
  record.fields.find? fun field => field.name == name

/-- The first required field that was not seen. -/
def missing? (record : Record σ) (seen : List String) : Option (RecordField σ) :=
  record.fields.find? fun field => field.required && !seen.contains field.name

/-- Reads the members one by one; `seen` are the fields read before. -/
def readMembers (record : Record σ) (seen : List String) (state : σ) :
    Members → Except Complaint (List String × σ)
  | [] => .ok (seen, state)
  | (key, node) :: rest => do
      let name ← Node.faulty key
      match record.field? name with
      | some field =>
          if seen.contains name then .error (.duplicateField name)
          let update ← field.read node
          readMembers record (name :: seen) (update state) rest
      | none =>
          if record.closed then
            .error (.unknownField name (record.fields.map RecordField.name))
          Node.faulty node.skip
          readMembers record seen state rest

/-- Reads items into fields in order; `index` fields were read before. -/
def readItems (record : Record σ) (source : Source) (length : Nat) (stop : Option Fault)
    (index : Nat) (state : σ) : List (RecordField σ) → List Node → Except Complaint σ
  | [], [] => do
      Node.faulty (Node.close stop)
      .ok state
  | [], _ :: _ =>
      match source with
      | .text => .error .surplusItems
      | .value => .error (.wrongLength length "fewer elements in array")
  | field :: fields, [] => do
      Node.faulty (Node.close stop)
      if field.required then
        .error (.wrongLength index ("struct " ++ record.name ++ " with "
          ++ record.fields.length.repr ++ " elements"))
      readItems record source length stop (index + 1) state fields []
  | field :: fields, item :: items => do
      let update ← field.read item
      readItems record source length stop (index + 1) (update state) fields items

/-- Reads a record over a state that holds what fields are when they are left out. -/
def read (record : Record σ) (source : Source) (start : σ) (node : Node) : Except Complaint σ :=
  match node with
  | .obj members stop => do
      let (seen, state) ← record.readMembers [] start members
      Node.faulty (Node.close stop)
      match record.missing? seen with
      | some field => .error (.missingField field.name)
      | none => .ok state
  | .arr items stop => record.readItems source items.length stop 0 start record.fields items
  | node => node.wrong ("struct " ++ record.name)

end Record

end EntityQuery
