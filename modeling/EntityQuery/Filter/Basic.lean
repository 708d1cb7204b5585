import EntityQuery.Entries
import EntityQuery.Scalar

/-!
# Filter/Basic — filters on the fields of an entity

A filter is a group of clauses, one per field, that must all hold — or of which none may hold when
the group is negated. A clause compares the field with a scalar, with a list of scalars or by a
condition, or it filters the entity at the other end of a relation. Conditions can be negated by
themselves.
-/

namespace EntityQuery

/-- What a field is compared with for equality. -/
inductive Operand where
  | one (value : Scalar)
  | oneOf (values : List Scalar)
  deriving DecidableEq, Repr

/-- The test of a condition. -/
inductive Test where
  | equal (operand : Operand)
  | like (pattern : Scalar)
  | range (above below : Option Scalar)
  /-- No operator is given. -/
  | unspecified
  deriving DecidableEq, Repr

/-- A test, possibly negated. -/
structure Condition where
  /-- The test. -/
  test : Test
  /-- Whether the test must fail. -/
  negated : Bool
  deriving DecidableEq, Repr

/-- What a filter asks of one field. -/
inductive Clause where
  /-- The field equals a value. -/
  | value (value : Scalar)
  /-- The field equals one of some values. -/
  | list (values : List Scalar)
  /-- The field meets a condition. -/
  | condition (condition : Condition)
  /-- An entity at the other end of the field's relation passes a filter. -/
  | nested (negated : Bool) (clauses : List (String × Clause))
  deriving Repr

/-- A group of clauses by field. -/
structure Filter where
  /-- Whether none of the clauses may hold. -/
  negated : Bool
  /-- The clauses, in the order of their fields. -/
  clauses : Entries Clause
  deriving Repr

/-! ## Building conditions -/

namespace Condition

/-- The field equals a value. -/
def equal (value : Scalar) : Condition := ⟨.equal (.one value), false⟩

/-- The field equals one of some values. -/
def oneOf (values : List Scalar) : Condition := ⟨.equal (.oneOf values), false⟩

/-- The field matches a pattern. -/
def like (pattern : Scalar) : Condition := ⟨.like pattern, false⟩

/-- The field lies strictly between bounds, each of which may be left out. -/
def range (above below : Option Scalar) : Condition := ⟨.range above below, false⟩

/-- The field is greater than a value. -/
def greaterThan (value : Scalar) : Condition := range (some value) none

/-- The field lies strictly between two values. -/
def between (above below : Scalar) : Condition := range (some above) (some below)

/-- A condition without an operator. -/
def unspecified : Condition := ⟨.unspecified, false⟩

/-- Turns the negation over. -/
def negate (condition : Condition) : Condition :=
  { condition with negated := !condition.negated }

end Condition

/-! ## Building filters -/

namespace Filter

/-- The filter that everything passes. -/
def empty : Filter := ⟨false, []⟩

/-- Asks something of a field, in place of what was asked before. -/
def add (filter : Filter) (field : String) (clause : Clause) : Filter :=
  { filter with clauses := filter.clauses.put field clause }

/-- Turns the negation over. -/
def negate (filter : Filter) : Filter :=
  { filter with negated := !filter.negated }

/-- The clause that filters the other end of a relation. -/
def toClause (filter : Filter) : Clause :=
  .nested filter.negated filter.clauses

end Filter

end EntityQuery
