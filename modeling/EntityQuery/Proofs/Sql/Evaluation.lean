import EntityQuery.Proofs.Sql.Truth
import EntityQuery.Sql.Statement

/-!
# Proofs/Sql/Evaluation — what an expression says about a row

A database has rows under the names of its tables, and says how cells compare.  An expression is
evaluated in a *scope*: the rows that the enclosing selections are at, the innermost first, and a
column belongs to the innermost one whose table has its name.  Evaluation is partial — a column
that no table in scope has, or a value where a condition should stand, has no truth value — so a
theorem that says what an expression evaluates to also says that all its columns resolve.
-/

namespace EntityQuery.Sql

variable {D : Type}

/-- A row of a table: a cell for each column. -/
abbrev Tuple (D : Type) : Type := String → D

/-- Tables, and how their cells compare. -/
structure Database (D : Type) where
  /-- The rows of a table. -/
  rows : String → List (Tuple D)
  /-- The cell that a parameter is compared as. -/
  bound : Value → D
  /-- What is known of a comparison of two cells. -/
  compare : Comparison → D → D → Truth

/-- Whether a cell is among some cells: the disjunction of the equalities. -/
def Database.member (db : Database D) (cell : D) (cells : List D) : Truth :=
  .any (cells.map (db.compare .equal cell))

/-- The rows of the enclosing selections with their tables, the innermost first. -/
abbrev Scope (D : Type) : Type := List (String × Tuple D)

/-- The cell of a column in the innermost row whose table has its name. -/
def Scope.cell? (scope : Scope D) (column : Column) : Option D :=
  (scope.lookup column.table).map fun row => row column.name

/-- The rows at which a condition is true; none if it has no truth value at one of them. -/
def passing? (truth? : Tuple D → Option Truth) (rows : List (Tuple D)) :
    Option (List (Tuple D)) := do
  let marked ← rows.mapM fun row => (truth? row).map fun truth => (row, truth)
  some ((marked.filter fun mark => mark.2 = .yes).map Prod.fst)

/-- The cell of a column or of a parameter. -/
def Expr.cell? (db : Database D) (scope : Scope D) : Expr → Option D
  | .column ref => scope.cell? ref
  | .value given => some (db.bound given)
  | _ => none

mutual

/-- The truth of an expression. -/
def Expr.truth? (db : Database D) (scope : Scope D) : Expr → Option Truth
  | .and operands => (truths? db scope operands).map Truth.all
  | .or operands => (truths? db scope operands).map Truth.any
  | .not operand => (operand.truth? db scope).map Truth.not
  | .group operand => operand.truth? db scope
  | .compare left comparison right => do
      let first ← left.cell? db scope
      let second ← right.cell? db scope
      some (db.compare comparison first second)
  | .inList operand items => do
      let cell ← operand.cell? db scope
      let cells ← items.mapM (Expr.cell? db scope)
      some (db.member cell cells)
  | .inSelect operand select => do
      let cell ← operand.cell? db scope
      let cells ← select.cells? db scope
      some (db.member cell cells)
  | .column _ => none
  | .value _ => none

/-- The truths of expressions, one by one. -/
def truths? (db : Database D) (scope : Scope D) : List Expr → Option (List Truth)
  | [] => some []
  | operand :: rest => do
      let truth ← operand.truth? db scope
      let truths ← truths? db scope rest
      some (truth :: truths)

/-- The truth of a condition that may be left out. -/
def conditionTruth? (db : Database D) (scope : Scope D) : Option Expr → Option Truth
  | none => some .yes
  | some condition => condition.truth? db scope

/-- The cells that a selection of one column finds; a selection that is sorted or cut has no meaning
here. -/
def Select.cells? (db : Database D) (scope : Scope D) : Select → Option (List D)
  | ⟨.columns [column], table, condition, [], ⟨none, _⟩⟩ => do
      let found ← passing? (fun row => conditionTruth? db ((table, row) :: scope) condition)
        (db.rows table)
      found.mapM fun row => Scope.cell? ((table, row) :: scope) column
  | _ => none

end

/-- **A cell is known to be in a column exactly when it is known to equal the cell of a row** that
is kept. -/
theorem Database.member_column_eq_yes {db : Database D} {cell : D} {rows : List (Tuple D)}
    {keep : Tuple D → Bool} {name : String} :
    db.member cell ((rows.filter keep).map fun row => row name) = .yes
      ↔ ∃ row ∈ rows, keep row = true ∧ db.compare .equal cell (row name) = .yes := by
  simp only [member, Truth.any_eq_yes, List.mem_map, List.mem_filter]
  constructor
  · rintro ⟨_, ⟨row, ⟨hrow, hkept⟩, rfl⟩, hequal⟩
    exact ⟨row, hrow, hkept, hequal⟩
  · rintro ⟨row, hrow, hkept, hequal⟩
    exact ⟨_, ⟨row, ⟨hrow, hkept⟩, rfl⟩, hequal⟩

/-! ## Columns and selections in scope -/

variable (db : Database D) (scope : Scope D)

/-- A column of the innermost table is a cell of the innermost row. -/
@[simp] theorem cell?_ofColumn (table name : String) (row : Tuple D) :
    (Expr.ofColumn table name).cell? db ((table, row) :: scope) = some (row name) := by
  simp [Expr.ofColumn, Expr.cell?, Scope.cell?]

theorem passing?_eq {truth? : Tuple D → Option Truth} {truth : Tuple D → Truth}
    (h : ∀ row, truth? row = some (truth row)) (rows : List (Tuple D)) :
    passing? truth? rows = some (rows.filter fun row => truth row = .yes) := by
  have hmarked : (rows.mapM fun row => (truth? row).map fun truth => (row, truth))
      = some (rows.map fun row => (row, truth row)) := by
    simp only [h, Option.map_some]
    exact List.mapM_pure
  rw [passing?, hmarked, Option.bind_eq_bind, Option.bind_some, List.filter_map, List.map_map]
  exact congrArg some (List.map_id _)

/-- **What a selection of one column finds** — the cells of the rows at which the condition is
true. -/
theorem cells?_columnWhere {condition : Option Expr} {truth : Tuple D → Truth}
    (table name : String)
    (h : ∀ row, conditionTruth? db ((table, row) :: scope) condition = some (truth row)) :
    (Select.columnWhere table name condition).cells? db scope
      = some (((db.rows table).filter fun row => truth row = .yes).map fun row => row name) := by
  rw [Select.columnWhere, Select.cells?, passing?_eq h]
  simp only [Option.bind_eq_bind, Option.bind_some, Scope.cell?, List.lookup_cons_self,
    Option.map_some]
  exact List.mapM_pure

/-! ## Conditions built from operands -/

theorem truth?_negateIf {operand : Expr} {truth : Truth} (negated : Bool)
    (h : operand.truth? db scope = some truth) :
    (Expr.negateIf negated operand).truth? db scope = some (.negateIf negated truth) := by
  cases negated with
  | false => exact h
  | true => rw [Expr.negateIf, if_pos rfl, Expr.truth?, h]; rfl

theorem truths?_singleton {operand : Expr} {truth : Truth}
    (h : operand.truth? db scope = some truth) : truths? db scope [operand] = some [truth] := by
  rw [truths?, h]
  rfl

theorem truths?_append {first second : List Expr} {truths others : List Truth}
    (h : truths? db scope first = some truths) (hothers : truths? db scope second = some others) :
    truths? db scope (first ++ second) = some (truths ++ others) := by
  induction first generalizing truths with
  | nil =>
    cases h
    exact hothers
  | cons operand rest ih =>
    rw [truths?] at h
    obtain ⟨truth, htruth, h⟩ := Option.bind_eq_some_iff.mp h
    obtain ⟨restTruths, hrest, h⟩ := Option.bind_eq_some_iff.mp h
    cases h
    rw [List.cons_append, truths?, htruth, ih hrest]
    rfl

/-- Operands whose truths are known one by one. -/
theorem truths?_map {α : Type} {operand : α → Expr} {truth : α → Truth}
    (h : ∀ a, (operand a).truth? db scope = some (truth a)) (items : List α) :
    truths? db scope (items.map operand) = some (items.map truth) := by
  induction items with
  | nil => rfl
  | cons a rest ih =>
    rw [List.map_cons, truths?, h, ih]
    rfl

/-- A comparison of a column with a parameter. -/
theorem truth?_compare_value {column : Expr} {cell : D} (comparison : Comparison) (value : Value)
    (h : column.cell? db scope = some cell) :
    (Expr.compare column comparison (.value value)).truth? db scope
      = some (db.compare comparison cell (db.bound value)) := by
  rw [Expr.truth?, h]
  rfl

/-- Membership of a column in a list of parameters. -/
theorem truth?_inList_values {column : Expr} {cell : D} (values : List Value)
    (h : column.cell? db scope = some cell) :
    (Expr.inList column (values.map .value)).truth? db scope
      = some (db.member cell (values.map db.bound)) := by
  have hcells : (values.map Expr.value).mapM (Expr.cell? db scope)
      = some (values.map db.bound) := by
    rw [List.mapM_map]
    exact List.mapM_pure
  rw [Expr.truth?, h, hcells]
  rfl

/-- Membership of a column in what a selection finds. -/
theorem truth?_inSelect {column : Expr} {select : Select} {cell : D} {cells : List D}
    (h : column.cell? db scope = some cell) (hcells : select.cells? db scope = some cells) :
    (Expr.inSelect column select).truth? db scope = some (db.member cell cells) := by
  rw [Expr.truth?, h, hcells]
  rfl

end EntityQuery.Sql
