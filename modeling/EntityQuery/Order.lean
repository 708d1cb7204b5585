import EntityQuery.Reading.Record

/-!
# Order — how the result is sorted

An order lists fields, each with a direction and optionally a place for nulls and a priority.
Reading never refuses the value of a field: an object without a usable direction, or any other
value, is kept as it is and does not sort, and neither does an order nested under a relation.
`Order.toJson` writes an order again.
-/

namespace EntityQuery

/-- Ascending or descending. -/
inductive Direction where
  | asc
  | desc
  deriving DecidableEq, Repr

/-- Where the nulls go. -/
inductive NullsPlace where
  | first
  | last
  deriving DecidableEq, Repr

/-- How a field sorts. -/
structure SortKey where
  /-- The direction. -/
  direction : Direction
  /-- The place of the nulls, if it matters. -/
  nulls : Option NullsPlace
  /-- Lower priorities sort first; none is as good as zero. -/
  priority : Option Int64
  deriving DecidableEq, Repr

/-- What an order holds for a field. -/
inductive SortEntry where
  /-- The field sorts. -/
  | key (key : SortKey)
  /-- An order on the other end of a relation, which does not sort. -/
  | nested (entries : List (String × SortEntry))
  /-- Any other value, which does not sort. -/
  | other (value : Json)
  deriving Repr

/-- Sort entries by field. -/
abbrev Order : Type := Entries SortEntry

/-! ## Names in documents -/

namespace Direction

/-- The names of the directions. -/
def names : List (String × Direction) := [("ASC", .asc), ("DESC", .desc)]

/-- The name of a direction. -/
def name : Direction → String
  | .asc => "ASC"
  | .desc => "DESC"

end Direction

namespace NullsPlace

/-- The names of the places. -/
def names : List (String × NullsPlace) := [("FIRST", .first), ("LAST", .last)]

/-- The name of a place. -/
def name : NullsPlace → String
  | .first => "FIRST"
  | .last => "LAST"

end NullsPlace

/-! ## Reading -/

namespace SortKey

/-- One of several names, by itself or as the only key of an object, over `null`. -/
def nameOf? {α : Type} (names : List (String × α)) : Json → Option α
  | .str name => names.lookup name
  | .obj [(name, .null)] => names.lookup name
  | _ => none

/-- An optional value: nothing when it is left out or null. -/
def optional? {α : Type} (read : Json → Option α) : Option Json → Option (Option α)
  | none | some .null => some none
  | some value => (read value).map some

/-- An integer of 64 bits with a sign. -/
def integer? : Json → Option Int64
  | .num (.integer value) =>
      if value < Number.signedLimit then some (Int64.ofInt value) else none
  | _ => none

/-- The sort key that the members of an object spell; it needs a direction. -/
def ofMembers? (members : List (String × Json)) : Option SortKey := do
  let members : Entries Json := members
  let direction ← members.get? "direction" >>= nameOf? Direction.names
  let nulls ← optional? (nameOf? NullsPlace.names) (members.get? "nulls")
  let priority ← optional? integer? (members.get? "priority")
  some { direction, nulls, priority }

end SortKey

namespace SortEntry

mutual

/-- The sort entry that a value spells. -/
def ofJson : Json → SortEntry
  | .obj members =>
      if members.any fun member => member.1 == "direction" then
        match SortKey.ofMembers? members with
        | some sortKey => .key sortKey
        | none => .other (.obj members)
      else if members.all fun member => member.2.isObj then .nested (ofMembers members)
      else .other (.obj members)
  | value => .other value

/-- The sort entries that members spell. -/
def ofMembers : List (String × Json) → List (String × SortEntry)
  | [] => []
  | (name, value) :: rest => (name, ofJson value) :: ofMembers rest

end

end SortEntry

namespace Order

/-- Reads an order. -/
def ofNode (node : Node) : Except Complaint Order :=
  node.readEntries fun value => (Node.faulty value.value).map SortEntry.ofJson

end Order

/-! ## Writing -/

namespace SortKey

/-- A sort key as a value; what is left out is not written. -/
def toJson (key : SortKey) : Json :=
  .obj (("direction", .str key.direction.name)
    :: (key.nulls.toList.map fun place => ("nulls", .str place.name))
    ++ key.priority.toList.map fun priority => ("priority", .num (.integer priority.toInt)))

end SortKey

namespace SortEntry

mutual

/-- A sort entry as a value. -/
def toJson : SortEntry → Json
  | .key sortKey => sortKey.toJson
  | .nested entries => .obj (toMembers entries)
  | .other value => value

/-- Sort entries as members. -/
def toMembers : List (String × SortEntry) → List (String × Json)
  | [] => []
  | (name, entry) :: rest => (name, toJson entry) :: toMembers rest

end

end SortEntry

namespace Order

/-- An order as a value. -/
def toJson (order : Order) : Json :=
  .obj (SortEntry.toMembers order)

end Order

end EntityQuery
