import EntityQuery.Compile.Target
import EntityQuery.Filter.Basic

/-!
# Compile/Filter — filters as boolean expressions

The clauses of a group become expressions that are joined by AND, or by OR under a NOT when the
group is negated. A clause that says nothing — a null, an empty list, a range without bounds, a
condition without an operator, a filter on a field that is no link — becomes no expression, and a
group without expressions becomes none either. A filter on a link becomes membership in a selection
on the other end, whose condition is the filter compiled for the entity there.
-/

namespace EntityQuery

open Sql (Expr Comparison Select)

/-! ## Conditions on a column -/

/-- A column compared with a scalar; nothing for a null. -/
def Scalar.compareTo? (dialect : Dialect) (column : Expr) (comparison : Comparison)
    (scalar : Scalar) : Except CompileError (Option Expr) :=
  if scalar.isNull then .ok none
  else (scalar.toExpr dialect).map fun value => some (.compare column comparison value)

/-- A column as a member of a list; nothing for an empty list. -/
def Scalar.memberOf? (dialect : Dialect) (column : Expr) (scalars : List Scalar) :
    Except CompileError (Option Expr) :=
  if scalars.isEmpty then .ok none
  else (scalars.mapM (toExpr dialect)).map fun items => some (.inList column items)

/-- The bound of a range, if there is one. -/
def Scalar.bound? (dialect : Dialect) (column : Expr) (comparison : Comparison)
    (bound : Option Scalar) : Except CompileError (Option Expr) :=
  match bound with
  | none => .ok none
  | some scalar => scalar.compareTo? dialect column comparison

namespace Condition

/-- A column in a range: the bounds joined by AND, in parentheses only under a NOT. -/
def rangeExpr? (dialect : Dialect) (column : Expr) (above below : Option Scalar) (negated : Bool) :
    Except CompileError (Option Expr) := do
  let lower ← Scalar.bound? dialect column .greater above
  let upper ← Scalar.bound? dialect column .less below
  match lower.toList ++ upper.toList with
  | [] => .ok none
  | bounds => .ok (some (if negated then .not (.group (.and bounds)) else .and bounds))

/-- A condition on a column; nothing if it says nothing. -/
def expr? (dialect : Dialect) (column : Expr) (condition : Condition) :
    Except CompileError (Option Expr) :=
  match condition.test with
  | .equal (.one scalar) =>
      (scalar.compareTo? dialect column .equal).map (·.map (Expr.negateIf condition.negated))
  | .equal (.oneOf scalars) =>
      (Scalar.memberOf? dialect column scalars).map (·.map (Expr.negateIf condition.negated))
  | .like pattern =>
      (pattern.compareTo? dialect column .like).map (·.map (Expr.negateIf condition.negated))
  | .range above below => rangeExpr? dialect column above below condition.negated
  | .unspecified => .ok none

end Condition

/-! ## Links -/

/-- Membership of a row in what a link reaches, of the rows that meet a condition there. -/
def Link.expr (source target : Entity) (inner : Option Expr) : Link → Expr
  | .bridge link =>
      .inSelect (.ofColumn source.table link.sourceRefKey)
        (.columnWhere link.table link.sourceForeignKey
          (some (.inSelect (.ofColumn link.table link.targetForeignKey)
            (.columnWhere target.table link.targetRefKey inner))))
  | .incoming link =>
      .inSelect (.ofColumn source.table link.sourceRefKey)
        (.columnWhere target.table link.targetForeignKey inner)
  | .outgoing link =>
      .inSelect (.ofColumn source.table link.sourceForeignKey)
        (.columnWhere target.table link.targetRefKey inner)

/-! ## Clauses and groups -/

/-- The expressions of a group as one: all of them, or none of them. -/
def joinGroup (negated : Bool) (operands : List Expr) : Option Expr :=
  if negated then Expr.none? operands else Expr.all? operands

/-- The column of a field that is no link. -/
def Entity.columnExpr (entity : Entity) (field : String) : Expr :=
  .ofColumn entity.table ((entity.columnOf? field).getD field)

namespace Clause

mutual

/-- The clause of a field; nothing if it says nothing. -/
def expr? (target : Target) (entity : Entity) (field : String) :
    Clause → Except CompileError (Option Expr)
  | .nested negated clauses =>
      match entity.field? field with
      | some (.link link) => do
          let other ← target.entity link.target
          let operands ← exprs target other clauses
          .ok (some (link.expr entity other (joinGroup negated operands)))
      | _ => .ok none
  | .value scalar =>
      match entity.field? field with
      | some (.link _) => .error (.linkComparedByValue field)
      | _ => scalar.compareTo? target.dialect (entity.columnExpr field) .equal
  | .list scalars =>
      match entity.field? field with
      | some (.link _) => .error (.linkComparedByValue field)
      | _ => Scalar.memberOf? target.dialect (entity.columnExpr field) scalars
  | .condition asked =>
      match entity.field? field with
      | some (.link _) => .error (.linkComparedByValue field)
      | _ => asked.expr? target.dialect (entity.columnExpr field)

/-- The expressions of the clauses that say something, in order. -/
def exprs (target : Target) (entity : Entity) :
    List (String × Clause) → Except CompileError (List Expr)
  | [] => .ok []
  | (field, clause) :: rest => do
      let operand ← expr? target entity field clause
      let operands ← exprs target entity rest
      .ok (operand.toList ++ operands)

end

end Clause

namespace Filter

/-- A filter on an entity as an expression; nothing if everything passes. -/
def expr? (target : Target) (entity : Entity) (filter : Filter) :
    Except CompileError (Option Expr) := do
  let operands ← Clause.exprs target entity filter.clauses
  .ok (joinGroup filter.negated operands)

/-- Compiles a filter to the text of its condition, which is empty if everything passes. -/
def compile (target : Target) (entity : String) (filter : Filter) :
    Except CompileError Sql.Buffer := do
  let entity ← target.entity entity
  let condition ← filter.expr? target entity
  .ok (.ofPieces target.dialect ((condition.map Expr.pieces).getD []))

end Filter

end EntityQuery
