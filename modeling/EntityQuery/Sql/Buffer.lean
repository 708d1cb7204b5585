import EntityQuery.Sql.Dialect
import EntityQuery.Sql.Piece

/-!
# Sql/Buffer — text with the parameters its placeholders stand for

A buffer grows by pieces. Words and names are appended as they are; a parameter appends the next
placeholder to the text and its value to the parameters, so the two stay in step.
-/

namespace EntityQuery.Sql

/-- SQL text and its parameters, in order. -/
structure Buffer where
  /-- How placeholders are written. -/
  placeholder : Placeholder
  /-- The text. -/
  text : String
  /-- The parameters. -/
  params : Array Value
  /-- The number of the last placeholder. -/
  paramIndex : Nat
  deriving DecidableEq, Repr

namespace Buffer

/-- The buffer without text. -/
def empty (placeholder : Placeholder) : Buffer := ⟨placeholder, "", #[], 0⟩

/-- Appends a text as it is. -/
def appendText (buffer : Buffer) (text : String) : Buffer :=
  { buffer with text := buffer.text ++ text }

/-- Appends the next placeholder and its parameter. -/
def appendParam (buffer : Buffer) (value : Value) : Buffer :=
  let number := buffer.paramIndex + 1
  { buffer with
    text := buffer.text ++ buffer.placeholder.write number
    params := buffer.params.push value
    paramIndex := number }

/-- Appends a piece. -/
def append (buffer : Buffer) : Piece → Buffer
  | .fixed text => buffer.appendText text
  | .name text => buffer.appendText text
  | .param value => buffer.appendParam value

/-- Appends pieces in order. -/
def appendAll (buffer : Buffer) (pieces : List Piece) : Buffer :=
  pieces.foldl append buffer

/-- Pieces in a buffer of their own. -/
def ofPieces (dialect : Dialect) (pieces : List Piece) : Buffer :=
  (empty dialect.placeholder).appendAll pieces

/-- Whether there is no text yet. -/
def isEmpty (buffer : Buffer) : Bool :=
  buffer.text.isEmpty

/-! ## What appending adds -/

@[simp] theorem placeholder_append (buffer : Buffer) (piece : Piece) :
    (buffer.append piece).placeholder = buffer.placeholder := by
  cases piece <;> rfl

theorem params_append (buffer : Buffer) (piece : Piece) :
    (buffer.append piece).params.toList = buffer.params.toList ++ piece.param?.toList := by
  cases piece <;> simp [append, appendText, appendParam, Piece.param?]

theorem paramIndex_append (buffer : Buffer) (piece : Piece) :
    (buffer.append piece).paramIndex = buffer.paramIndex + piece.param?.toList.length := by
  cases piece <;> simp [append, appendText, appendParam, Piece.param?]

/-- The parameters of pieces follow those that were there. -/
theorem params_appendAll (pieces : List Piece) (buffer : Buffer) :
    (buffer.appendAll pieces).params.toList = buffer.params.toList ++ Piece.params pieces := by
  induction pieces generalizing buffer with
  | nil => simp [appendAll, Piece.params]
  | cons piece rest ih =>
    have h := ih (buffer.append piece)
    rw [params_append] at h
    cases hp : piece.param? <;> simpa [appendAll, Piece.params, hp] using h

/-- Placeholders are numbered on, one for each parameter. -/
theorem paramIndex_appendAll (pieces : List Piece) (buffer : Buffer) :
    (buffer.appendAll pieces).paramIndex = buffer.paramIndex + (Piece.params pieces).length := by
  induction pieces generalizing buffer with
  | nil => simp [appendAll, Piece.params]
  | cons piece rest ih =>
    have h := ih (buffer.append piece)
    rw [paramIndex_append] at h
    cases hp : piece.param? with
    | none => simpa [appendAll, Piece.params, hp] using h
    | some value =>
      simp only [hp, Option.toList, List.length_singleton] at h
      simp only [Piece.params, List.filterMap_cons, hp, List.length_cons]
      exact h.trans (Nat.add_right_comm .. |>.trans (Nat.add_assoc ..))

end Buffer

end EntityQuery.Sql
