import EntityQuery.Number.Binary64

/-!
# Sql/Statement — statements and expressions

Statements are trees; nothing is written yet. An expression has the parentheses it was given and no
others: `and` and `or` join their operands as they are, `group` is a pair of parentheses.
Values are always parameters, so an expression never holds the text of a value.
-/

namespace EntityQuery.Sql

/-- A value of a parameter. -/
inductive Value where
  | null
  | bool (value : Bool)
  | int (value : Int64)
  | float (value : Binary64)
  | text (value : String)
  deriving DecidableEq, Repr

/-- A column of a table. -/
structure Column where
  table : String
  name : String
  deriving DecidableEq, Repr

/-- A comparison of two expressions. -/
inductive Comparison where
  | equal
  | greater
  | less
  | like
  deriving DecidableEq, Repr

/-- The columns of a result. -/
inductive SelectList where
  | columns (columns : List Column)
  /-- Every column of a table. -/
  | star (table : String)
  deriving DecidableEq, Repr

/-- One way or the other. -/
inductive SortDirection where
  | asc
  | desc
  deriving DecidableEq, Repr

/-- Where the nulls go. -/
inductive NullsOrder where
  | first
  | last
  deriving DecidableEq, Repr

/-- A column to sort by. -/
structure SortTerm where
  column : Column
  direction : SortDirection
  nulls : Option NullsOrder
  deriving DecidableEq, Repr

/-- How many rows to take and to drop; dropping is written only along with taking. -/
structure Limit where
  limit : Option UInt64 := none
  offset : Option UInt64 := none
  deriving DecidableEq, Repr

mutual

/-- An expression. -/
inductive Expr where
  | and (operands : List Expr)
  | or (operands : List Expr)
  | not (operand : Expr)
  /-- An expression in parentheses. -/
  | group (operand : Expr)
  | compare (left : Expr) (comparison : Comparison) (right : Expr)
  /-- Membership in a list. -/
  | inList (operand : Expr) (items : List Expr)
  /-- Membership in the result of a selection. -/
  | inSelect (operand : Expr) (select : Select)
  | column (column : Column)
  | value (value : Value)

/-- A selection. -/
structure Select where
  list : SelectList
  table : String
  condition : Option Expr
  order : List SortTerm
  limit : Limit

end

/-- An insertion of rows. -/
structure Insert where
  table : String
  columns : List String
  rows : List (List Expr)

namespace Expr

/-- The conjunction of some operands: nothing for none, and a single one as it is. -/
def all? : List Expr → Option Expr
  | [] => none
  | [operand] => some operand
  | operands => some (.and operands)

/-- The negation of a disjunction: nothing for no operands. -/
def none? : List Expr → Option Expr
  | [] => none
  | operands => some (.not (.group (.or operands)))

/-- A column of a table. -/
def ofColumn (table name : String) : Expr :=
  .column ⟨table, name⟩

/-- A negation, if it is asked for. -/
def negateIf (negated : Bool) (operand : Expr) : Expr :=
  if negated then .not operand else operand

end Expr

/-- The selection of one column of a table, of the rows that meet a condition. -/
def Select.columnWhere (table column : String) (condition : Option Expr) : Select where
  list := .columns [⟨table, column⟩]
  table := table
  condition := condition
  order := []
  limit := {}

end EntityQuery.Sql
