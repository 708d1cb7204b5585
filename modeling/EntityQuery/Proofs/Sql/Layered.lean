import EntityQuery.Proofs.Sql.Legible

/-!
# Proofs/Sql/Layered — trees that are written without missing parentheses

Expressions are written without any parentheses but those of `Expr.group`, so a tree comes back from
its text only if no operator stands below one that binds tighter (`Expr.Fits`), and if nothing is
written as nothing: no list is empty, and names are plain words.

`Expr.legible`, `Select.legible` and `Insert.legible` say that the pieces of such a tree do not run
together.
-/

namespace EntityQuery.Sql

/-! ## Layers -/

/-- The places of an expression, each with the operators that bind at least as tightly. -/
inductive Layer where
  /-- Where anything may stand. -/
  | disjunction
  /-- Below AND or OR: anything but OR. -/
  | conjunction
  /-- Below NOT: neither AND nor OR. -/
  | negation
  deriving DecidableEq, Repr

/-- A column with plain names. -/
def Column.IsPlain (column : Column) : Prop :=
  PlainWord column.table ∧ PlainWord column.name

/-- Columns with plain names, and parameters. -/
def Expr.IsOperand : Expr → Prop
  | .column ref => ref.IsPlain
  | .value _ => True
  | _ => False

/-- A list of columns that is not empty, or the star of a table. -/
def SelectList.Fits : SelectList → Prop
  | .columns listed => listed ≠ [] ∧ ∀ column ∈ listed, column.IsPlain
  | .star table => PlainWord table

mutual

/-- Whether an expression may stand in a place, and all its parts in theirs. -/
def Expr.Fits (layer : Layer) : Expr → Prop
  | .or operands => layer = .disjunction ∧ operands ≠ [] ∧ AllFit operands
  | .and operands => layer ≠ .negation ∧ operands ≠ [] ∧ AllFit operands
  | .not operand => operand.Fits .negation
  | .group operand => operand.Fits .disjunction
  | .compare left _ right => left.IsOperand ∧ right.IsOperand
  | .inList operand items => operand.IsOperand ∧ items ≠ [] ∧ ∀ item ∈ items, item.IsOperand
  | .inSelect operand select => operand.IsOperand ∧ select.Fits
  | .column _ => False
  | .value _ => False

/-- Whether expressions may stand below AND or OR. -/
def AllFit : List Expr → Prop
  | [] => True
  | operand :: rest => operand.Fits .conjunction ∧ AllFit rest

/-- Whether a condition may stand behind WHERE. -/
def ConditionFits : Option Expr → Prop
  | none => True
  | some condition => condition.Fits .disjunction

/-- Whether the parts of a selection may stand where they do; an offset needs a limit. -/
def Select.Fits : Select → Prop
  | ⟨list, table, condition, order, limit⟩ =>
      list.Fits ∧ PlainWord table ∧ ConditionFits condition
        ∧ (∀ term ∈ order, term.column.IsPlain) ∧ (limit.limit = none → limit.offset = none)

end

/-- Whether an insertion has columns and rows, and no row is empty. -/
structure Insert.Fits (insert : Insert) : Prop where
  table : PlainWord insert.table
  columns_ne_nil : insert.columns ≠ []
  columns : ∀ column ∈ insert.columns, PlainWord column
  rows_ne_nil : insert.rows ≠ []
  rows : ∀ row ∈ insert.rows, row ≠ [] ∧ ∀ cell ∈ row, cell.IsOperand

/-- Operands fit if each fits in a conjunction. -/
theorem allFit_iff {operands : List Expr} :
    AllFit operands ↔ ∀ operand ∈ operands, operand.Fits .conjunction := by
  induction operands with
  | nil => exact ⟨fun _ => nofun, fun _ => trivial⟩
  | cons operand rest ih => rw [AllFit, ih, List.forall_mem_cons]

/-! ## Legibility -/

/-- The two words of a column have a point between. -/
theorem Column.legible {column : Column} (h : column.IsPlain) : Legible column.pieces :=
  (Legible.name h.1).separated (by decide) (Legible.name h.2)

theorem Expr.legible_operand {operand : Expr} (h : operand.IsOperand) : Legible operand.pieces := by
  match operand, h with
  | .column ref, h => exact ref.legible h
  | .value given, _ => exact Legible.singleton trivial

theorem pieceLists_eq_map (operands : List Expr) :
    pieceLists operands = operands.map Expr.pieces := by
  induction operands with
  | nil => rfl
  | cons operand rest ih => rw [pieceLists, ih, List.map_cons]

/-- Commas keep operands apart. -/
theorem legible_operands {items : List Expr} (h : ∀ item ∈ items, item.IsOperand) :
    Legible (Piece.join ", " (pieceLists items)) := by
  refine Legible.join (by decide) fun pieces hpieces => ?_
  rw [pieceLists_eq_map] at hpieces
  obtain ⟨item, hitem, rfl⟩ := List.mem_map.mp hpieces
  exact Expr.legible_operand (h item hitem)

/-- A parenthesis closes what is legible. -/
theorem Legible.closed {inner : List Piece} (h : Legible inner) :
    Legible (inner ++ [.fixed ")"]) := by
  refine h.append (.singleton (by decide)) fun piece hpiece => ?_
  cases hpiece
  decide

/-- Commas keep columns apart. -/
theorem SelectList.legible {list : SelectList} (h : list.Fits) : Legible list.pieces := by
  cases list with
  | columns columns =>
    refine Legible.join (by decide) fun pieces hpieces => ?_
    obtain ⟨column, hcolumn, rfl⟩ := List.mem_map.mp hpieces
    exact column.legible (h.2 column hcolumn)
  | star table => exact (Legible.name h).separated (by decide) .nil

/-- The words behind the column of a sort term begin with blanks. -/
theorem SortDirection.trailing_text (direction : SortDirection) :
    (Piece.fixed direction.text).Lexical ∧ (Piece.fixed direction.text).opens = false := by
  cases direction <;> decide

theorem NullsOrder.trailing_text (place : NullsOrder) :
    (Piece.fixed place.text).Lexical ∧ (Piece.fixed place.text).opens = false := by
  cases place <;> decide

/-- A blank stands before a direction and before a place of nulls. -/
theorem SortTerm.legible {term : SortTerm} (h : term.column.IsPlain) : Legible term.pieces := by
  obtain ⟨column, direction, nulls⟩ := term
  have hnulls : Legible (nulls.toList.map fun place => Piece.fixed place.text) := by
    cases nulls with
    | none => exact .nil
    | some place => exact .singleton place.trailing_text.1
  have hwords : Legible (.fixed direction.text
      :: nulls.toList.map fun place => Piece.fixed place.text) := by
    refine (Legible.singleton direction.trailing_text.1).append hnulls fun piece hpiece => ?_
    cases nulls with
    | none => cases hpiece
    | some place =>
      cases hpiece
      exact place.trailing_text.2
  refine (column.legible h).append hwords fun piece hpiece => ?_
  cases hpiece
  exact direction.trailing_text.2

theorem legible_order {terms : List SortTerm} (h : ∀ term ∈ terms, term.column.IsPlain) :
    Legible (orderPieces terms) := by
  cases terms with
  | nil => exact .nil
  | cons term rest =>
    refine Legible.cons (by decide) (Legible.join (by decide) fun pieces hpieces => ?_)
    obtain ⟨listed, hlisted, rfl⟩ := List.mem_map.mp hpieces
    exact listed.legible (h listed hlisted)

/-- The numbers of a page stand between words. -/
theorem Limit.legible (limit : Limit) : Legible limit.pieces := by
  obtain ⟨count, offset⟩ := limit
  match count, offset with
  | none, _ => exact .nil
  | some count, none =>
    exact .singleton (Piece.lexical_append_repr (by decide) _)
  | some count, some offset =>
    refine (Legible.singleton (Piece.lexical_append_repr (by decide) _)).append
      (.singleton (Piece.lexical_append_repr (by decide) _)) fun piece hpiece => ?_
    cases hpiece
    rw [Piece.opens, String.toList_append]
    rfl

/-- A clause of a selection has a blank in front, if it is there. -/
theorem Legible.clause {absent : Bool} {first pieces : List Piece} (hfirst : Legible first)
    (h : Legible pieces) : Legible (first ++ if absent then [] else .fixed " " :: pieces) := by
  cases absent with
  | true => exact (List.append_nil first).symm ▸ hfirst
  | false => exact hfirst.separated (by decide) h

/-- A comparison has blanks around it. -/
theorem Comparison.separates (comparison : Comparison) : Separates comparison.text := by
  cases comparison <;> decide

mutual

/-- **The pieces of an expression whose parts are in their places are legible.** -/
theorem Expr.legible : ∀ {layer : Layer} {expr : Expr}, expr.Fits layer → Legible expr.pieces
  | _, .and operands, ⟨_, _, h⟩ => by
      rw [Expr.pieces]
      exact Legible.join (by decide) (legible_pieceLists h)
  | _, .or operands, ⟨_, _, h⟩ => by
      rw [Expr.pieces]
      exact Legible.join (by decide) (legible_pieceLists h)
  | _, .not operand, h => by
      rw [Expr.pieces]
      exact (@Expr.legible _ operand h).cons (by decide)
  | _, .group operand, h => by
      rw [Expr.pieces]
      exact ((@Expr.legible _ operand h).cons (by decide)).closed
  | _, .compare left comparison right, ⟨hleft, hright⟩ => by
      rw [Expr.pieces]
      have hoperand := Expr.legible_operand hleft
      exact hoperand.separated comparison.separates (Expr.legible_operand hright)
  | _, .inList operand items, ⟨hoperand, _, hitems⟩ => by
      rw [Expr.pieces]
      exact ((Expr.legible_operand hoperand).separated (by decide) (legible_operands hitems)).closed
  | _, .inSelect operand select, ⟨hoperand, hselect⟩ => by
      rw [Expr.pieces]
      exact ((Expr.legible_operand hoperand).separated (by decide) (Select.legible hselect)).closed

theorem legible_pieceLists : ∀ {operands : List Expr}, AllFit operands →
    ∀ pieces ∈ pieceLists operands, Legible pieces
  | [], _, _, hpieces => nomatch hpieces
  | operand :: rest, ⟨hfirst, hrest⟩, pieces, hpieces => by
      rcases List.mem_cons.mp hpieces with rfl | hpieces
      · exact Expr.legible hfirst
      · exact legible_pieceLists hrest pieces hpieces

theorem legible_condition : ∀ {condition : Option Expr}, ConditionFits condition →
    Legible (conditionPieces condition)
  | none, _ => .nil
  | some condition, h => (@Expr.legible _ condition h).cons (by decide)

/-- **A selection that fits can be told apart into its lexemes.** -/
theorem Select.legible : ∀ {select : Select}, select.Fits → Legible select.pieces
  | ⟨list, table, condition, order, limit⟩, ⟨hlist, htable, hcondition, horder, _⟩ => by
      rw [Select.pieces]
      refine Legible.clause (Legible.clause ?_ (legible_order horder)) limit.legible
      refine Legible.separated (by decide) ((SelectList.legible hlist).cons (by decide)) ?_
      refine Legible.cons (by decide) ((Legible.name htable).append
        (legible_condition hcondition) fun piece hpiece => ?_)
      cases condition with
      | none => cases hpiece
      | some condition =>
        cases hpiece
        decide

end

/-- **An insertion that fits can be told apart into its lexemes.** -/
theorem Insert.legible {insert : Insert} (h : insert.Fits) : Legible insert.pieces := by
  have hcolumns : Legible
      (Piece.join ", " (insert.columns.map fun column => [Piece.name column])) := by
    refine Legible.join (by decide) fun pieces hpieces => ?_
    obtain ⟨column, hcolumn, rfl⟩ := List.mem_map.mp hpieces
    exact .name (h.columns column hcolumn)
  have hrows : Legible (Piece.join ", " (insert.rows.map rowPieces)) := by
    refine Legible.join (by decide) fun pieces hpieces => ?_
    obtain ⟨row, hrow, rfl⟩ := List.mem_map.mp hpieces
    exact ((legible_operands (h.rows row hrow).2).cons (by decide)).closed
  have hopening : Separates " (" := by decide
  have hvalues : Separates ") VALUES " := by decide
  have hnames := ((Legible.name h.table).separated hopening hcolumns).separated hvalues hrows
  exact hnames.cons (by decide)

end EntityQuery.Sql
