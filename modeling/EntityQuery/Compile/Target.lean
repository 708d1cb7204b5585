import EntityQuery.Graph.Basic
import EntityQuery.Scalar
import EntityQuery.Sql.Buffer

/-!
# Compile/Target — what requests are compiled against

A request is compiled against a graph and a dialect. `CompileError` lists everything that can go
wrong, and `Scalar.toValue` is the one place where a scalar becomes a parameter: booleans follow the
dialect, an instant is bound as its literal, and a value that is still to come cannot be bound.
-/

namespace EntityQuery

/-- A graph and the conventions of the database. -/
structure Target where
  /-- The entities. -/
  graph : Graph
  /-- The conventions. -/
  dialect : Dialect

/-- Why a request cannot be compiled. -/
inductive CompileError where
  /-- An entity is not in the graph. -/
  | entityNotFound (entity : String)
  /-- A value that is still to come would have to be bound. -/
  | pendingValue (reference : String)
  /-- A field that is a link is compared with a value. -/
  | linkComparedByValue (field : String)
  /-- A cell of a column is not a scalar. -/
  | cellNotScalar (field : String)
  /-- There are no rows to insert. -/
  | noRows (entity : String)
  /-- No field of the entity is a column. -/
  | noColumns (entity : String)
  deriving DecidableEq, Repr

/-- The wording of an error. -/
def CompileError.message : CompileError → String
  | .entityNotFound entity => "Entity '" ++ entity ++ "' not found."
  | .pendingValue reference =>
      "Value '" ++ reference ++ "' is still pending and cannot be used as a parameter."
  | .linkComparedByValue field =>
      "Filtering relation field '" ++ field ++ "' by value is not supported."
  | .cellNotScalar field =>
      "A non-scalar value for column field '" ++ field ++ "' is not supported."
  | .noRows entity => "No rows to insert into entity '" ++ entity ++ "'."
  | .noColumns entity => "Entity '" ++ entity ++ "' has no columns to insert into."

/-- The entity of a name. -/
def Target.entity (target : Target) (name : String) : Except CompileError Entity :=
  match target.graph.entity? name with
  | some entity => .ok entity
  | none => .error (.entityNotFound name)

/-- How a boolean is bound. -/
def BooleanBinding.bind (binding : BooleanBinding) (value : Bool) : Sql.Value :=
  match binding with
  | .native => .bool value
  | .text => .text (if value then "TRUE" else "FALSE")

namespace Scalar

/-- The parameter that a scalar becomes. -/
def toValue (dialect : Dialect) : Scalar → Except CompileError Sql.Value
  | .null => .ok .null
  | .bool value => .ok (dialect.booleans.bind value)
  | .int value => .ok (.int value)
  | .float value => .ok (.float value)
  | .text value => .ok (.text value)
  | .instant value => .ok (.text value.literal)
  | .pending reference => .error (.pendingValue reference)

/-- A scalar as an expression. -/
def toExpr (dialect : Dialect) (scalar : Scalar) : Except CompileError Sql.Expr :=
  (scalar.toValue dialect).map Sql.Expr.value

end Scalar

end EntityQuery
