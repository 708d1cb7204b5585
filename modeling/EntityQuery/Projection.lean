import EntityQuery.Reading.Record

/-!
# Projection — which fields are selected

A projection marks fields. Only the literal `true` selects one; a nested projection and any other
marker are accepted and select nothing.
-/

namespace EntityQuery

/-- What a projection holds for a field. -/
inductive Marker where
  /-- The field is selected, or it is not. -/
  | included (value : Bool)
  /-- A projection of the other end of a relation, which selects nothing. -/
  | nested (markers : List (String × Marker))
  /-- Any other value, which selects nothing. -/
  | other (value : Json)
  deriving Repr

/-- Markers by field. -/
abbrev Projection : Type := Entries Marker

namespace Marker

/-- Whether the field is selected. -/
def isIncluded : Marker → Bool
  | .included value => value
  | _ => false

mutual

/-- The marker that a value spells. -/
def ofJson : Json → Marker
  | .bool value => .included value
  | .obj members => .nested (ofMembers members)
  | value => .other value

/-- The markers that members spell. -/
def ofMembers : List (String × Json) → List (String × Marker)
  | [] => []
  | (name, value) :: rest => (name, ofJson value) :: ofMembers rest

end

end Marker

namespace Projection

/-- Reads a projection. -/
def ofNode (node : Node) : Except Complaint Projection :=
  node.readEntries fun value => (Node.faulty value.value).map Marker.ofJson

end Projection

end EntityQuery
