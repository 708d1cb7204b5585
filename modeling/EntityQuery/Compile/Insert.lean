import EntityQuery.Compile.Target
import EntityQuery.Request

/-!
# Compile/Insert — rows as an insertion

An insertion has every field that is a column, in the order of the declaration, and a tuple for each
row. A row is read by field: a field that it does not have is null, and what it has for links and
for fields that are not mapped does not matter. The first cell that cannot be bound, row by row, is
the error.
-/

namespace EntityQuery

namespace Row

/-- The value of a field. -/
def cellExpr (dialect : Dialect) (row : Row) (field : String) : Except CompileError Sql.Expr :=
  match Entries.get? row field with
  | none => .ok (.value .null)
  | some (.scalar scalar) => scalar.toExpr dialect
  | some (.other _) => .error (.cellNotScalar field)

/-- The values of fields, in order. -/
def tuple (dialect : Dialect) (fields : List String) (row : Row) :
    Except CompileError (List Sql.Expr) :=
  fields.mapM (row.cellExpr dialect)

/-- The insertion of rows into an entity of a name. -/
def insertion (target : Target) (name : String) (entity : Entity) (rows : List Row) :
    Except CompileError Sql.Insert :=
  if rows.isEmpty then .error (.noRows name)
  else if entity.columns.isEmpty then .error (.noColumns name)
  else do
    let tuples ← rows.mapM (tuple target.dialect entity.columns.names)
    .ok ⟨entity.table, entity.columns.map Prod.snd, tuples⟩

/-- Compiles the insertion of rows. -/
def compileAll (target : Target) (name : String) (rows : List Row) :
    Except CompileError Sql.Buffer := do
  let entity ← target.entity name
  let insertion ← insertion target name entity rows
  .ok (.ofPieces target.dialect insertion.pieces)

end Row

end EntityQuery
