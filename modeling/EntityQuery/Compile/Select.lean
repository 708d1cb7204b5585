import EntityQuery.Compile.Filter
import EntityQuery.Request

/-!
# Compile/Select — requests as selections

The select list has the fields that are marked `true` and are columns, or everything. The order has
the sort keys of fields that are columns, by priority, and keys of one priority in the order in
which they were given. A page size limits the result, and a page after the first skips the pages
before it.
-/

namespace EntityQuery

/-! ## The select list -/

/-- The columns that a projection selects, or the star if it selects none. -/
def Projection.selectList (entity : Entity) (projection : Projection) : Sql.SelectList :=
  let columns := projection.filterMap fun (field, marker) =>
    if marker.isIncluded then (entity.columnOf? field).map fun column => ⟨entity.table, column⟩
    else none
  if columns.isEmpty then .star entity.table else .columns columns

/-! ## The order -/

/-- The direction in SQL. -/
def Direction.toSql : Direction → Sql.SortDirection
  | .asc => .asc
  | .desc => .desc

/-- The place of the nulls in SQL. -/
def NullsPlace.toSql : NullsPlace → Sql.NullsOrder
  | .first => .first
  | .last => .last

namespace Order

/-- A sort key of a field that is a column, with its priority. -/
def prioritized? (entity : Entity) (field : String) (entry : SortEntry) :
    Option (Int64 × Sql.SortTerm) :=
  match entry with
  | .key key => (entity.columnOf? field).map fun column =>
      (key.priority.getD 0, ⟨⟨entity.table, column⟩, key.direction.toSql, key.nulls.map (·.toSql)⟩)
  | _ => none

/-- The columns to sort by, by priority. -/
def terms (entity : Entity) (order : Order) : List Sql.SortTerm :=
  let keys := order.filterMap fun (field, entry) => prioritized? entity field entry
  (keys.mergeSort fun a b => decide (a.1 ≤ b.1)).map Prod.snd

/-- Compiles an order to its clause, which is empty if nothing sorts. -/
def compile (target : Target) (entity : String) (order : Order) : Except CompileError String := do
  let entity ← target.entity entity
  .ok (Sql.Buffer.ofPieces target.dialect (Sql.orderPieces (order.terms entity))).text

end Order

/-! ## The page -/

/-- A product of counts, at most the greatest count. -/
def saturatingMul (a b : UInt64) : UInt64 :=
  UInt64.ofNat (min (a.toNat * b.toNat) (UInt64.size - 1))

/-- The rows of a page. -/
def pageLimit (page : UInt64) (pageSize : Option UInt64) : Sql.Limit :=
  match pageSize with
  | none => {}
  | some size =>
      if size = 0 then {}
      else
        { limit := some size
          offset := if page = 0 then none else some (saturatingMul page size) }

/-! ## The selection -/

namespace Request

/-- A request on an entity as a selection. -/
def select (target : Target) (entity : Entity) (request : Request) :
    Except CompileError Sql.Select := do
  let condition ← request.search.expr? target entity
  .ok
    { list := request.fields.selectList entity
      table := entity.table
      condition := condition
      order := request.order.terms entity
      limit := pageLimit request.page request.pageSize }

/-- Compiles a request. -/
def compile (target : Target) (entity : String) (request : Request) :
    Except CompileError Sql.Buffer := do
  let entity ← target.entity entity
  let select ← request.select target entity
  .ok (.ofPieces target.dialect select.pieces)

end Request

end EntityQuery
