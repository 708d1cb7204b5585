import EntityQuery.Filter.Reader
import EntityQuery.Order
import EntityQuery.Projection

/-!
# Request — selections and rows

A request selects entities: which ones, which fields of them, in which order, and which page of the
result. Everything may be left out. A row is what one insertion gives to the fields of an entity.
-/

namespace EntityQuery

/-- A selection with its projection, order and page. -/
structure Request where
  /-- The page, counted from zero. -/
  page : UInt64 := 0
  /-- The rows of a page; none, or zero, for everything on one page. -/
  pageSize : Option UInt64 := none
  /-- The order of the result. -/
  order : Order := []
  /-- The selected fields. -/
  fields : Projection := []
  /-- The filter. -/
  search : Filter := .empty

namespace Request

/-- The record of a request's fields. -/
def record : Record Request where
  name := "Request"
  closed := false
  fields := [
    ⟨"page", false, fun node => do
      let page ← node.readUnsigned
      .ok fun request => { request with page }⟩,
    ⟨"pageSize", false, fun node => do
      let pageSize ← Node.readOption Node.readUnsigned node
      .ok fun request => { request with pageSize }⟩,
    ⟨"order", false, fun node => do
      let order ← Order.ofNode node
      .ok fun request => { request with order }⟩,
    ⟨"fields", false, fun node => do
      let fields ← Projection.ofNode node
      .ok fun request => { request with fields }⟩,
    ⟨"search", false, fun node => do
      let search ← Filter.ofNode node
      .ok fun request => { request with search }⟩]

/-- Reads a request. -/
def ofNode (node : Node) : Except Complaint Request :=
  record.read .text {} node

end Request

/-- What a row gives to one field. -/
inductive Cell where
  | scalar (value : Scalar)
  /-- A value that is not a scalar, such as what belongs to a relation. -/
  | other (value : Json)
  deriving Repr

/-- Cells by field. -/
abbrev Row : Type := Entries Cell

namespace Cell

/-- The cell that a value spells. -/
def ofJson (value : Json) : Except Complaint Cell :=
  match value with
  | .arr _ => .ok (.other value)
  | .obj members =>
      if Key.marksScalar members then (Scalar.ofJson value).map Cell.scalar
      else .ok (.other value)
  | _ => (Scalar.ofJson value).map Cell.scalar

/-- Reads a cell. -/
def ofNode (node : Node) : Except Complaint Cell := do
  let value ← Node.faulty node.value
  ofJson value

end Cell

namespace Row

/-- Reads a row. -/
def ofNode (node : Node) : Except Complaint Row :=
  node.readEntries Cell.ofNode

/-- Reads rows. -/
def readAll (node : Node) : Except Complaint (List Row) :=
  node.readItems ofNode

end Row

end EntityQuery
