import EntityQuery.Sql.Buffer

/-!
# Proofs/Sql/Segments — the text around the parameters

    segments:   s₀      s₁      s₂   …       sₙ
    text:       s₀ $1   s₁ $2   s₂   …  $n   sₙ

Pieces fix the texts between their parameters (`Piece.segments`) and the parameters themselves, and
a style of placeholders only fills the gaps (`Placeholder.weave`).  `extends_appendAll` says that of
every buffer that pieces are appended to, and `Expr.values` reads the parameters of a statement off
its tree.
-/

namespace EntityQuery

/-- Texts with the placeholders of parameters between, numbered on after a number. -/
def Placeholder.weave (placeholder : Placeholder) (number : Nat) : List String → String
  | [] => ""
  | [text] => text
  | text :: next :: rest =>
      text ++ (placeholder.write (number + 1) ++ placeholder.weave (number + 1) (next :: rest))

namespace Sql

/-! ## Segments -/

namespace Piece

/-- A text in front of the first segment. -/
def prepend (text : String) : List String → List String
  | [] => [text]
  | first :: rest => (text ++ first) :: rest

/-- The texts around the parameters of pieces, one more than there are parameters. -/
def segments : List Piece → List String
  | [] => [""]
  | .fixed text :: rest => prepend text (segments rest)
  | .name text :: rest => prepend text (segments rest)
  | .param _ :: rest => "" :: segments rest

theorem length_prepend (text : String) {texts : List String} (h : texts ≠ []) :
    (prepend text texts).length = texts.length := by
  cases texts with
  | nil => exact absurd rfl h
  | cons first rest => rfl

theorem segments_ne_nil (pieces : List Piece) : segments pieces ≠ [] := by
  cases pieces with
  | nil => exact List.cons_ne_nil _ _
  | cons piece rest =>
    cases piece <;> rw [segments]
    case param => exact List.cons_ne_nil _ _
    all_goals cases segments rest <;> exact List.cons_ne_nil _ _

/-- **There is one segment more than there are parameters.** -/
theorem length_segments (pieces : List Piece) :
    (segments pieces).length = (params pieces).length + 1 := by
  induction pieces with
  | nil => rfl
  | cons piece rest ih =>
    cases piece with
    | fixed text => rw [segments, length_prepend text (segments_ne_nil rest), ih]; rfl
    | name text => rw [segments, length_prepend text (segments_ne_nil rest), ih]; rfl
    | param value => rw [segments, List.length_cons, ih]; rfl

/-- A text in front of the first segment comes first. -/
theorem weave_prepend (placeholder : Placeholder) (number : Nat) (text : String)
    (texts : List String) :
    placeholder.weave number (prepend text texts) = text ++ placeholder.weave number texts := by
  match texts with
  | [] => exact String.append_empty.symm
  | [first] => rfl
  | first :: next :: rest => exact String.append_assoc

/-- Between two segments stands the next placeholder. -/
theorem weave_param (placeholder : Placeholder) (number : Nat) {texts : List String}
    (h : texts ≠ []) :
    placeholder.weave number ("" :: texts)
      = placeholder.write (number + 1) ++ placeholder.weave (number + 1) texts := by
  cases texts with
  | nil => exact absurd rfl h
  | cons next rest => exact String.empty_append

end Piece

/-! ## Buffers -/

namespace Buffer

@[simp] theorem placeholder_appendAll (pieces : List Piece) (buffer : Buffer) :
    (buffer.appendAll pieces).placeholder = buffer.placeholder := by
  induction pieces generalizing buffer with
  | nil => rfl
  | cons piece rest ih => exact (ih (buffer.append piece)).trans (placeholder_append buffer piece)

/-- **The text of pieces is their segments with numbered placeholders between.** -/
theorem text_appendAll (pieces : List Piece) (buffer : Buffer) :
    (buffer.appendAll pieces).text
      = buffer.text ++ buffer.placeholder.weave buffer.paramIndex (Piece.segments pieces) := by
  induction pieces generalizing buffer with
  | nil => exact String.append_empty.symm
  | cons piece rest ih =>
    refine (ih (buffer.append piece)).trans ?_
    cases piece with
    | fixed text =>
      rw [Piece.segments, Piece.weave_prepend, ← String.append_assoc]
      rfl
    | name text =>
      rw [Piece.segments, Piece.weave_prepend, ← String.append_assoc]
      rfl
    | param value =>
      rw [Piece.segments, Piece.weave_param _ _ (Piece.segments_ne_nil rest),
        ← String.append_assoc]
      rfl

/-- What is appended to a buffer that holds some parameters: segments with the placeholders of
values between, numbered on from the parameters that were there. -/
structure Extends (before after : Buffer) (segments : List String) (values : List Value) :
    Prop where
  text : after.text = before.text ++ before.placeholder.weave before.params.size segments
  params : after.params.toList = before.params.toList ++ values
  paramIndex : after.paramIndex = after.params.size
  length_segments : segments.length = values.length + 1
  placeholder : after.placeholder = before.placeholder

/-- **Pieces extend every buffer by the same segments and values.** -/
theorem extends_appendAll (pieces : List Piece) {buffer : Buffer}
    (h : buffer.paramIndex = buffer.params.size) :
    buffer.Extends (buffer.appendAll pieces) (Piece.segments pieces) (Piece.params pieces) where
  text := h ▸ text_appendAll pieces buffer
  params := params_appendAll pieces buffer
  paramIndex := by
    have hsize : (buffer.appendAll pieces).params.size
        = buffer.params.size + (Piece.params pieces).length := by
      rw [← Array.length_toList, params_appendAll, List.length_append]
      rfl
    rw [paramIndex_appendAll, hsize, h]
  length_segments := Piece.length_segments pieces
  placeholder := placeholder_appendAll pieces buffer

end Buffer

/-! ## The parameters of a statement -/

mutual

/-- The values of an expression, in order. -/
def Expr.values : Expr → List Value
  | .and operands => listValues operands
  | .or operands => listValues operands
  | .not operand => operand.values
  | .group operand => operand.values
  | .compare left _ right => left.values ++ right.values
  | .inList operand items => operand.values ++ listValues items
  | .inSelect operand select => operand.values ++ select.values
  | .column _ => []
  | .value value => [value]

/-- The values of expressions, one after the other. -/
def listValues : List Expr → List Value
  | [] => []
  | operand :: rest => operand.values ++ listValues rest

/-- The values of a condition that may be left out. -/
def conditionValues : Option Expr → List Value
  | none => []
  | some condition => condition.values

/-- The values of a selection: those of its condition. -/
def Select.values : Select → List Value
  | ⟨_, _, condition, _, _⟩ => conditionValues condition

end

/-- The values of an insertion, row by row. -/
def Insert.values (insert : Insert) : List Value :=
  insert.rows.flatMap listValues

theorem params_append (first second : List Piece) :
    Piece.params (first ++ second) = Piece.params first ++ Piece.params second :=
  List.filterMap_append

/-- A separator has no parameters. -/
theorem params_join (separator : String) :
    ∀ lists : List (List Piece),
      Piece.params (Piece.join separator lists) = (lists.map Piece.params).flatten
  | [] => rfl
  | [pieces] => (List.append_nil _).symm
  | pieces :: next :: rest => by
      rw [Piece.join, params_append, List.map_cons, List.flatten_cons, ← params_join separator]
      · rfl
      · exact List.cons_ne_nil _ _

/-- Names and words are no parameters. -/
theorem params_column (column : Column) : Piece.params column.pieces = [] := rfl

theorem params_selectList (list : SelectList) : Piece.params list.pieces = [] := by
  cases list with
  | star table => rfl
  | columns listed =>
    rw [SelectList.pieces, params_join, List.flatten_eq_nil_iff]
    rintro _ hparams
    obtain ⟨_, hpieces, rfl⟩ := List.mem_map.mp hparams
    obtain ⟨column, _, rfl⟩ := List.mem_map.mp hpieces
    exact params_column column

theorem params_order (terms : List SortTerm) : Piece.params (orderPieces terms) = [] := by
  cases terms with
  | nil => rfl
  | cons term rest =>
    change Piece.params (Piece.join ", " ((term :: rest).map SortTerm.pieces)) = []
    rw [params_join, List.flatten_eq_nil_iff]
    rintro _ hparams
    obtain ⟨_, hpieces, rfl⟩ := List.mem_map.mp hparams
    obtain ⟨⟨column, direction, nulls⟩, _, rfl⟩ := List.mem_map.mp hpieces
    cases nulls <;> rfl

theorem params_limit (limit : Limit) : Piece.params limit.pieces = [] := by
  obtain ⟨count, offset⟩ := limit
  cases count <;> cases offset <;> rfl

/-- The clause that sorts has no parameters, whether it is there or not. -/
theorem params_orderClause (order : List SortTerm) :
    Piece.params (if order.isEmpty then [] else .fixed " " :: orderPieces order) = [] := by
  split
  · rfl
  · exact params_order order

/-- Neither has the clause that limits. -/
theorem params_limitClause (limit : Limit) :
    Piece.params (if limit.limit.isNone then [] else .fixed " " :: limit.pieces) = [] := by
  split
  · rfl
  · exact params_limit limit

mutual

/-- **The parameters of an expression are its values, in order.** -/
theorem Expr.params_pieces : ∀ expr : Expr, Piece.params expr.pieces = expr.values
  | .and operands => by
      rw [Expr.pieces, Expr.values, params_join, params_pieceLists]
  | .or operands => by
      rw [Expr.pieces, Expr.values, params_join, params_pieceLists]
  | .not operand => Expr.params_pieces operand
  | .group operand => by
      rw [Expr.pieces, Expr.values, ← Expr.params_pieces operand, List.cons_append]
      exact (params_append operand.pieces _).trans (List.append_nil _)
  | .compare left comparison right => by
      rw [Expr.pieces, Expr.values, params_append, Expr.params_pieces left,
        ← Expr.params_pieces right]
      rfl
  | .inList operand items => by
      rw [Expr.pieces, Expr.values, List.append_assoc, params_append, Expr.params_pieces operand,
        ← params_pieceLists items, ← params_join ", "]
      exact congrArg _ ((params_append _ _).trans (List.append_nil _))
  | .inSelect operand select => by
      rw [Expr.pieces, Expr.values, List.append_assoc, params_append, Expr.params_pieces operand,
        ← Select.params_pieces select]
      exact congrArg _ ((params_append _ _).trans (List.append_nil _))
  | .column _ => rfl
  | .value _ => rfl

theorem params_pieceLists :
    ∀ operands : List Expr, ((pieceLists operands).map Piece.params).flatten = listValues operands
  | [] => rfl
  | operand :: rest => by
      rw [pieceLists, List.map_cons, List.flatten_cons, Expr.params_pieces operand,
        params_pieceLists rest, listValues]

theorem params_condition :
    ∀ condition : Option Expr, Piece.params (conditionPieces condition) = conditionValues condition
  | none => rfl
  | some condition => Expr.params_pieces condition

/-- **The parameters of a selection are the values of its condition, in order.** -/
theorem Select.params_pieces : ∀ select : Select, Piece.params select.pieces = select.values
  | ⟨list, table, condition, order, limit⟩ => by
      have hlist : Piece.params (.fixed "SELECT " :: list.pieces) = [] := params_selectList list
      rw [Select.pieces, params_append, params_append, params_append, params_orderClause,
        params_limitClause, hlist, List.append_nil, List.append_nil]
      exact params_condition condition

end

theorem params_row (row : List Expr) : Piece.params (rowPieces row) = listValues row := by
  rw [rowPieces, ← params_pieceLists, ← params_join ", "]
  exact (params_append _ _).trans (List.append_nil _)

/-- The columns of an insertion have no parameters. -/
theorem params_names (columns : List String) :
    Piece.params (Piece.join ", " (columns.map fun column => [Piece.name column])) = [] := by
  rw [params_join, List.flatten_eq_nil_iff]
  rintro _ hparams
  obtain ⟨_, hpieces, rfl⟩ := List.mem_map.mp hparams
  obtain ⟨column, _, rfl⟩ := List.mem_map.mp hpieces
  rfl

/-- **The parameters of an insertion are its values, row by row.** -/
theorem Insert.params_pieces (insert : Insert) : Piece.params insert.pieces = insert.values := by
  obtain ⟨table, columns, rows⟩ := insert
  have hrows : Piece.params (Piece.join ", " (rows.map rowPieces)) = rows.flatMap listValues := by
    rw [params_join, List.map_map, List.flatMap]
    exact congrArg List.flatten (List.map_congr_left fun row _ => params_row row)
  rw [Insert.pieces, params_append]
  exact (congrArg (· ++ _) (params_names columns)).trans hrows

end Sql

end EntityQuery
