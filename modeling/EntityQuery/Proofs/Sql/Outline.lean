import EntityQuery.Proofs.Sql.Segments

/-!
# Proofs/Sql/Outline — a statement without its values

The outline of a statement has a null in the place of every value.  `text_eq_of_outline` says that
nothing else of a value reaches the text: pieces with the same outline are written alike.
-/

namespace EntityQuery.Sql

/-! ## Outlines -/

/-- A piece without its value. -/
def Piece.outline : Piece → Piece
  | .param _ => .param .null
  | piece => piece

mutual

/-- An expression without its values. -/
def Expr.outline : Expr → Expr
  | .and operands => .and (outlines operands)
  | .or operands => .or (outlines operands)
  | .not operand => .not operand.outline
  | .group operand => .group operand.outline
  | .compare left comparison right => .compare left.outline comparison right.outline
  | .inList operand items => .inList operand.outline (outlines items)
  | .inSelect operand select => .inSelect operand.outline select.outline
  | .column ref => .column ref
  | .value _ => .value .null

/-- Expressions without their values. -/
def outlines : List Expr → List Expr
  | [] => []
  | operand :: rest => operand.outline :: outlines rest

/-- A condition that may be left out, without its values. -/
def conditionOutline : Option Expr → Option Expr
  | none => none
  | some condition => some condition.outline

/-- A selection without its values. -/
def Select.outline : Select → Select
  | ⟨list, table, condition, order, limit⟩ =>
      ⟨list, table, conditionOutline condition, order, limit⟩

end

/-- An insertion without its values. -/
def Insert.outline (insert : Insert) : Insert :=
  { insert with rows := insert.rows.map outlines }

theorem outlines_append (first second : List Expr) :
    outlines (first ++ second) = outlines first ++ outlines second := by
  induction first with
  | nil => rfl
  | cons operand rest ih => exact congrArg (operand.outline :: ·) ih

/-! ## Pieces without their values -/

/-- Pieces of which none is a parameter are their own outline. -/
theorem map_outline_of_params {pieces : List Piece} (h : Piece.params pieces = []) :
    pieces.map Piece.outline = pieces := by
  induction pieces with
  | nil => rfl
  | cons piece rest ih =>
    cases piece with
    | fixed text => exact congrArg (Piece.fixed text :: ·) (ih h)
    | name text => exact congrArg (Piece.name text :: ·) (ih h)
    | param value => exact nomatch h

theorem map_join (separator : String) :
    ∀ lists : List (List Piece), (Piece.join separator lists).map Piece.outline
      = Piece.join separator (lists.map (List.map Piece.outline))
  | [] => rfl
  | [pieces] => rfl
  | pieces :: next :: rest => by
      rw [Piece.join, List.map_append, List.map_cons, map_join separator (next :: rest)]
      · rfl
      · exact List.cons_ne_nil _ _

mutual

/-- **The pieces of an outline are the outlines of the pieces.** -/
theorem Expr.pieces_outline :
    ∀ expr : Expr, expr.outline.pieces = expr.pieces.map Piece.outline
  | .and operands => by
      rw [Expr.outline, Expr.pieces, Expr.pieces, map_join, pieceLists_outlines]
  | .or operands => by
      rw [Expr.outline, Expr.pieces, Expr.pieces, map_join, pieceLists_outlines]
  | .not operand => congrArg (Piece.fixed "NOT " :: ·) (Expr.pieces_outline operand)
  | .group operand => by
      rw [Expr.outline, Expr.pieces, Expr.pieces, List.map_append, List.map_cons,
        Expr.pieces_outline operand]
      rfl
  | .compare left comparison right => by
      rw [Expr.outline, Expr.pieces, Expr.pieces, List.map_append, List.map_cons,
        Expr.pieces_outline left, Expr.pieces_outline right]
      rfl
  | .inList operand items => by
      rw [Expr.outline, Expr.pieces, Expr.pieces, List.map_append, List.map_append, List.map_cons,
        map_join, Expr.pieces_outline operand, pieceLists_outlines items]
      rfl
  | .inSelect operand select => by
      rw [Expr.outline, Expr.pieces, Expr.pieces, List.map_append, List.map_append, List.map_cons,
        Expr.pieces_outline operand, Select.pieces_outline select]
      rfl
  | .column _ => rfl
  | .value _ => rfl

theorem pieceLists_outlines : ∀ operands : List Expr,
    pieceLists (outlines operands) = (pieceLists operands).map (List.map Piece.outline)
  | [] => rfl
  | operand :: rest => by
      rw [outlines, pieceLists, pieceLists, List.map_cons, Expr.pieces_outline operand,
        pieceLists_outlines rest]

theorem conditionPieces_outline : ∀ condition : Option Expr,
    conditionPieces (conditionOutline condition) = (conditionPieces condition).map Piece.outline
  | none => rfl
  | some condition => congrArg (Piece.fixed " WHERE " :: ·) (Expr.pieces_outline condition)

theorem Select.pieces_outline :
    ∀ select : Select, select.outline.pieces = select.pieces.map Piece.outline
  | ⟨list, table, condition, order, limit⟩ => by
      have hlist : (Piece.fixed "SELECT " :: list.pieces).map Piece.outline
          = Piece.fixed "SELECT " :: list.pieces := map_outline_of_params (params_selectList list)
      rw [Select.outline, Select.pieces, Select.pieces, conditionPieces_outline condition,
        List.map_append, List.map_append, List.map_append, hlist,
        map_outline_of_params (params_orderClause order),
        map_outline_of_params (params_limitClause limit)]
      rfl

end

theorem Insert.pieces_outline (insert : Insert) :
    insert.outline.pieces = insert.pieces.map Piece.outline := by
  obtain ⟨table, columns, rows⟩ := insert
  have hcolumns : (Piece.join ", " (columns.map fun column => [Piece.name column])).map
      Piece.outline = Piece.join ", " (columns.map fun column => [Piece.name column]) := by
    rw [map_join, List.map_map]
    rfl
  have hrow : rowPieces ∘ outlines = List.map Piece.outline ∘ rowPieces := by
    funext row
    simp only [Function.comp, rowPieces, List.map_append, List.map_cons, map_join,
      pieceLists_outlines]
    rfl
  have hrows : Piece.join ", " ((rows.map outlines).map rowPieces)
      = (Piece.join ", " (rows.map rowPieces)).map Piece.outline := by
    rw [map_join, List.map_map, List.map_map, hrow]
  rw [Insert.outline, Insert.pieces, Insert.pieces, List.map_append, List.map_cons, hrows]
  simp only [List.map_cons, hcolumns]
  rfl

/-! ## The text of an outline -/

/-- The segments of pieces are those of their outlines. -/
theorem segments_map_outline (pieces : List Piece) :
    Piece.segments (pieces.map Piece.outline) = Piece.segments pieces := by
  induction pieces with
  | nil => rfl
  | cons piece rest ih =>
    cases piece <;> simp only [List.map_cons, Piece.outline, Piece.segments, ih]

/-- **Pieces with the same outline are written alike**, whatever their values and however booleans
are bound. -/
theorem text_eq_of_outline {pieces others : List Piece} (style : Placeholder)
    (booleans bound : BooleanBinding)
    (h : pieces.map Piece.outline = others.map Piece.outline) :
    (Buffer.ofPieces ⟨style, booleans⟩ pieces).text
      = (Buffer.ofPieces ⟨style, bound⟩ others).text := by
  rw [Buffer.ofPieces, Buffer.text_appendAll, Buffer.ofPieces, Buffer.text_appendAll,
    ← segments_map_outline pieces, h, segments_map_outline]

end EntityQuery.Sql
