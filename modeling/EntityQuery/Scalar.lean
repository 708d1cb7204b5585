import EntityQuery.Instant.Reader
import EntityQuery.Reading.Reader

/-!
# Scalar — the atomic values of requests

A scalar is what a filter compares with and what a row inserts. In a document it is a JSON literal,
or an object that stands for an instant (`$_date`) or for a value that is still to come
(`$_pending`). Integers have 64 bits with a sign, and one that needs the sixty-fourth bit is refused
rather than rounded.
-/

namespace EntityQuery

/-- An atomic value. -/
inductive Scalar where
  | null
  | bool (value : Bool)
  | int (value : Int64)
  | float (value : Binary64)
  | text (value : String)
  | instant (value : Instant)
  /-- A value that is not known yet, by its reference; it cannot be bound. -/
  | pending (reference : String)
  deriving DecidableEq, Repr

/-! ## Reserved keys -/

namespace Key

/-- Negates a condition or a group of clauses. -/
def negation : String := "$_not"

/-- Compares for equality or membership. -/
def equal : String := "$_eq"

/-- Compares with a pattern. -/
def like : String := "$_lk"

/-- Bounds from below. -/
def greater : String := "$_gt"

/-- Bounds from above. -/
def lesser : String := "$_lt"

/-- Marks an instant. -/
def date : String := "$_date"

/-- Marks a value that is still to come. -/
def pending : String := "$_pending"

/-- Reserved keys start with these characters. -/
def isReserved (key : String) : Bool :=
  key.toList.take 2 == ['$', '_']

/-- Whether members hold a key. -/
def isIn {α : Type} (key : String) (members : List (String × α)) : Bool :=
  members.any fun member => member.1 == key

/-- Whether members spell a scalar, as far as their keys show. -/
def marksScalar {α : Type} (members : List (String × α)) : Bool :=
  isIn date members || isIn pending members

end Key

namespace Scalar

/-- Whether the scalar is the null. -/
def isNull : Scalar → Bool
  | .null => true
  | _ => false

/-- The instant that a text spells. -/
def ofDateText (text : String) : Except Complaint Scalar :=
  match Instant.read text with
  | some value => .ok (.instant value)
  | none => .error (.invalidDate text)

/-- The text under a key that stands once. -/
def textUnder? (key : String) (members : List (String × Json)) : Option String :=
  match members.filter fun member => member.1 == key with
  | [(_, .str value)] => some value
  | _ => none

/-- The scalar that a value spells; the members of an object may repeat keys. -/
def ofJson : Json → Except Complaint Scalar
  | .null => .ok .null
  | .bool value => .ok (.bool value)
  | .num (.integer value) =>
      if value < Number.signedLimit then .ok (.int (Int64.ofInt value))
      else .error (.integerOutOfRange value)
  | .num (.real value) => .ok (.float value)
  | .str value => .ok (.text value)
  | .obj members =>
      match textUnder? Key.date members with
      | some spelled => ofDateText spelled
      | none =>
          match textUnder? Key.pending members with
          | some reference => .ok (.pending reference)
          | none => .error (.noShape "RawScalar")
  | .arr _ => .error (.noShape "RawScalar")

/-- The reader of scalars. -/
def reader : Reader Scalar :=
  ⟨Json, fun node => Node.faulty node.content, ofJson⟩

/-- Reads a scalar. -/
def ofNode (node : Node) : Except Complaint Scalar :=
  reader.read node

end Scalar

end EntityQuery
