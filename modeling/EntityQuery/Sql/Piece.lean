import EntityQuery.Sql.Statement

/-!
# Sql/Piece — statements as a list of pieces

A statement is written as a list of pieces: words and marks of SQL, names from the graph, and
parameters. How a parameter looks is left open, so the pieces of a statement are the same for every
dialect; `params` are the parameters in the order in which they stand.
-/

namespace EntityQuery.Sql

/-- A piece of a statement. -/
inductive Piece where
  /-- Words and marks. -/
  | fixed (text : String)
  /-- A name, written as it is. -/
  | name (text : String)
  /-- A parameter. -/
  | param (value : Value)
  deriving DecidableEq, Repr

namespace Piece

/-- The value of a parameter. -/
def param? : Piece → Option Value
  | .param value => some value
  | _ => none

/-- The parameters among pieces. -/
def params (pieces : List Piece) : List Value :=
  pieces.filterMap param?

/-- Lists of pieces with a separator between. -/
def join (separator : String) : List (List Piece) → List Piece
  | [] => []
  | [pieces] => pieces
  | pieces :: rest => pieces ++ .fixed separator :: join separator rest

end Piece

open Piece

/-- A column with its table. -/
def Column.pieces (column : Column) : List Piece :=
  [.name column.table, .fixed ".", .name column.name]

/-- The sign of a comparison, with blanks around it. -/
def Comparison.text : Comparison → String
  | .equal => " = "
  | .greater => " > "
  | .less => " < "
  | .like => " LIKE "

/-- The columns of a result. -/
def SelectList.pieces : SelectList → List Piece
  | .columns listed => join ", " (listed.map Column.pieces)
  | .star table => [.name table, .fixed ".*"]

/-- The word of a direction. -/
def SortDirection.text : SortDirection → String
  | .asc => " ASC"
  | .desc => " DESC"

/-- The words of a place for nulls. -/
def NullsOrder.text : NullsOrder → String
  | .first => " NULLS FIRST"
  | .last => " NULLS LAST"

/-- A column to sort by. -/
def SortTerm.pieces (term : SortTerm) : List Piece :=
  term.column.pieces ++ .fixed term.direction.text
    :: (term.nulls.toList.map fun nulls => .fixed nulls.text)

/-- The clause that sorts; nothing for no columns. -/
def orderPieces : List SortTerm → List Piece
  | [] => []
  | terms => .fixed "ORDER BY " :: join ", " (terms.map SortTerm.pieces)

/-- The clause that limits; nothing without a limit, even if there is an offset. -/
def Limit.pieces (limit : Limit) : List Piece :=
  match limit.limit with
  | none => []
  | some count =>
      .fixed ("LIMIT " ++ count.toNat.repr)
        :: (limit.offset.toList.map fun offset => .fixed (" OFFSET " ++ offset.toNat.repr))

mutual

/-- An expression. -/
def Expr.pieces : Expr → List Piece
  | .and operands => join " AND " (pieceLists operands)
  | .or operands => join " OR " (pieceLists operands)
  | .not operand => .fixed "NOT " :: operand.pieces
  | .group operand => .fixed "(" :: operand.pieces ++ [.fixed ")"]
  | .compare left comparison right =>
      left.pieces ++ .fixed comparison.text :: right.pieces
  | .inList operand items =>
      operand.pieces ++ .fixed " IN (" :: join ", " (pieceLists items) ++ [.fixed ")"]
  | .inSelect operand select =>
      operand.pieces ++ .fixed " IN (" :: select.pieces ++ [.fixed ")"]
  | .column column => column.pieces
  | .value value => [.param value]

/-- Expressions, one by one. -/
def pieceLists : List Expr → List (List Piece)
  | [] => []
  | operand :: rest => operand.pieces :: pieceLists rest

/-- The clause of a condition, with a blank in front; nothing without a condition. -/
def conditionPieces : Option Expr → List Piece
  | none => []
  | some condition => .fixed " WHERE " :: condition.pieces

/-- A selection. -/
def Select.pieces : Select → List Piece
  | ⟨list, table, condition, order, limit⟩ =>
      .fixed "SELECT " :: list.pieces ++ .fixed " " :: .fixed "FROM " :: .name table
        :: conditionPieces condition
        ++ (if order.isEmpty then [] else .fixed " " :: orderPieces order)
        ++ (if limit.limit.isNone then [] else .fixed " " :: limit.pieces)

end

/-- The values of a row. -/
def rowPieces (row : List Expr) : List Piece :=
  .fixed "(" :: join ", " (pieceLists row) ++ [.fixed ")"]

/-- An insertion. -/
def Insert.pieces (insert : Insert) : List Piece :=
  .fixed "INSERT INTO " :: .name insert.table :: .fixed " ("
    :: join ", " (insert.columns.map fun column => [.name column]) ++ .fixed ") VALUES "
    :: join ", " (insert.rows.map rowPieces)

end EntityQuery.Sql
