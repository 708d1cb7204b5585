import EntityQuery.Proofs.Sql.Segments

/-!
# Proofs/Sql/Script — texts put together from texts

    pieces   before ++ pieces ++ after
    text     script before ++ text of the pieces ++ script after

A script has a question mark for every parameter.  It is the text of pieces that are written with
question marks (`ofPieces_questionMark`), and the script of pieces put together is put together from
their scripts.  A numbered placeholder depends on how many stand in front of it, so with numbers
only pieces without parameters are their script wherever they stand — `ofPieces_between` puts such
pieces around others and changes nothing of these.
-/

namespace EntityQuery.Sql

/-- A text behind the lead of its clause; nothing for no text. -/
def clauseText (lead text : String) : String :=
  if text = "" then "" else lead ++ text

namespace Piece

/-! ## Scripts -/

/-- The text of pieces, with a question mark for every parameter. -/
def script : List Piece → String
  | [] => ""
  | .fixed text :: rest => text ++ script rest
  | .name text :: rest => text ++ script rest
  | .param _ :: rest => "?" ++ script rest

@[simp] theorem script_nil : script [] = "" := rfl

@[simp] theorem script_fixed (text : String) (rest : List Piece) :
    script (.fixed text :: rest) = text ++ script rest := rfl

@[simp] theorem script_name (text : String) (rest : List Piece) :
    script (.name text :: rest) = text ++ script rest := rfl

@[simp] theorem script_param (value : Value) (rest : List Piece) :
    script (.param value :: rest) = "?" ++ script rest := rfl

@[simp] theorem script_append (first second : List Piece) :
    script (first ++ second) = script first ++ script second := by
  induction first with
  | nil => simp
  | cons piece rest ih => rcases piece with text | text | value <;> simp [ih, String.append_assoc]

/-- Lists with a separator between are written with its text between. -/
theorem script_join (separator : String) : ∀ lists : List (List Piece),
    script (join separator lists) = separator.intercalate (lists.map script)
  | [] => by simp [join]
  | [pieces] => by simp [join]
  | pieces :: next :: rest => by
      have ih := script_join separator (next :: rest)
      simp [join, ih, String.append_assoc]

/-! ## Scripts and styles -/

/-- With question marks the text does not depend on numbers. -/
theorem weave_questionMark (pieces : List Piece) (number : Nat) :
    Placeholder.questionMark.weave number (segments pieces) = script pieces := by
  induction pieces generalizing number with
  | nil => rfl
  | cons piece rest ih =>
    rcases piece with text | text | value
    · rw [segments, weave_prepend, ih, script_fixed]
    · rw [segments, weave_prepend, ih, script_name]
    · rw [segments, weave_param _ _ (segments_ne_nil rest), ih, script_param]
      rfl

/-- Without parameters neither the style nor the number matters. -/
theorem weave_of_params {pieces : List Piece} (h : params pieces = []) (style : Placeholder)
    (number : Nat) : style.weave number (segments pieces) = script pieces := by
  induction pieces with
  | nil => rfl
  | cons piece rest ih =>
    rcases piece with text | text | value
    · rw [segments, weave_prepend, ih h, script_fixed]
    · rw [segments, weave_prepend, ih h, script_name]
    · exact absurd h (List.cons_ne_nil _ _)

/-- Pieces behind others are numbered on from their parameters. -/
theorem weave_append (style : Placeholder) (number : Nat) (first second : List Piece) :
    style.weave number (segments (first ++ second))
      = style.weave number (segments first)
        ++ style.weave (number + (params first).length) (segments second) := by
  induction first generalizing number with
  | nil => simp [segments, params, Placeholder.weave]
  | cons piece rest ih =>
    rcases piece with text | text | value
    · rw [List.cons_append, segments, weave_prepend, ih, segments, weave_prepend,
        String.append_assoc]
      rfl
    · rw [List.cons_append, segments, weave_prepend, ih, segments, weave_prepend,
        String.append_assoc]
      rfl
    · have hcount : number + 1 + (params rest).length
          = number + (params (.param value :: rest)).length :=
        (Nat.add_assoc ..).trans (congrArg (number + ·) (Nat.add_comm ..))
      rw [List.cons_append, segments, weave_param _ _ (segments_ne_nil _), ih, segments,
        weave_param _ _ (segments_ne_nil rest), String.append_assoc, hcount]

/-! ## Texts that are not empty -/

/-- Whether there are words among pieces, or marks. -/
def Shows (pieces : List Piece) : Prop :=
  ∃ text, text ≠ "" ∧ Piece.fixed text ∈ pieces

theorem Shows.mono {pieces others : List Piece} (h : Shows pieces) (hsub : pieces ⊆ others) :
    Shows others := by
  obtain ⟨text, hne, htext⟩ := h
  exact ⟨text, hne, hsub htext⟩

/-- What is joined stands in the result. -/
theorem subset_join {separator : String} {pieces : List Piece} : ∀ {lists : List (List Piece)},
    pieces ∈ lists → pieces ⊆ join separator lists
  | [only], h => by
      rw [List.mem_singleton.mp h, join]
      exact List.Subset.refl only
  | first :: next :: rest, h => by
      rw [join]
      · rcases List.mem_cons.mp h with rfl | h
        · exact List.subset_append_left _ _
        · have hrest : pieces ⊆ join separator (next :: rest) := subset_join h
          have htail := List.Subset.trans hrest (List.subset_cons_self (.fixed separator) _)
          exact List.Subset.trans htail (List.subset_append_right first _)
      · exact List.cons_ne_nil _ _

/-- What shows has a text, whatever the placeholders are. -/
theorem weave_ne_empty {pieces : List Piece} (h : Shows pieces) (style : Placeholder)
    (number : Nat) : style.weave number (segments pieces) ≠ "" := by
  obtain ⟨text, hne, htext⟩ := h
  obtain ⟨before, after, rfl⟩ := List.append_of_mem htext
  rw [weave_append, segments, weave_prepend]
  intro hempty
  rw [String.append_eq_empty_iff, String.append_eq_empty_iff] at hempty
  exact hne hempty.2.1

end Piece

/-! ## Buffers -/

namespace Buffer

theorem ext {first second : Buffer} (hstyle : first.placeholder = second.placeholder)
    (htext : first.text = second.text) (hparams : first.params.toList = second.params.toList)
    (hindex : first.paramIndex = second.paramIndex) : first = second := by
  obtain ⟨style, text, params, number⟩ := first
  obtain ⟨style', text', params', number'⟩ := second
  obtain rfl : params = params' := Array.toList_inj.mp hparams
  simp_all

/-- What pieces leave in a buffer of their own. -/
theorem ofPieces_eq (dialect : Dialect) (pieces : List Piece) :
    ofPieces dialect pieces
      = ⟨dialect.placeholder, dialect.placeholder.weave 0 (Piece.segments pieces),
          (Piece.params pieces).toArray, (Piece.params pieces).length⟩ := by
  have htext := text_appendAll pieces (empty dialect.placeholder)
  have hparams := params_appendAll pieces (empty dialect.placeholder)
  have hindex := paramIndex_appendAll pieces (empty dialect.placeholder)
  rw [empty, String.empty_append] at htext
  rw [empty, Nat.zero_add] at hindex
  exact ext (placeholder_appendAll pieces _) htext hparams hindex

/-- **With question marks, pieces are their script and their parameters.** -/
theorem ofPieces_questionMark (booleans : BooleanBinding) (pieces : List Piece) :
    ofPieces ⟨.questionMark, booleans⟩ pieces
      = ⟨.questionMark, Piece.script pieces, (Piece.params pieces).toArray,
          (Piece.params pieces).length⟩ := by
  rw [ofPieces_eq, Piece.weave_questionMark]

/-- **Pieces without parameters around others add their texts, and nothing else.** -/
theorem ofPieces_between (dialect : Dialect) {before after : List Piece}
    (hbefore : Piece.params before = []) (hafter : Piece.params after = []) (pieces : List Piece) :
    ofPieces dialect (before ++ pieces ++ after)
      = { ofPieces dialect pieces with
          text := Piece.script before ++ (ofPieces dialect pieces).text
            ++ Piece.script after } := by
  have hparams : Piece.params (before ++ pieces ++ after) = Piece.params pieces := by
    rw [Sql.params_append, Sql.params_append, hbefore, hafter, List.nil_append, List.append_nil]
  rw [ofPieces_eq, ofPieces_eq, hparams, Piece.weave_append, Piece.weave_append,
    Piece.weave_of_params hbefore, Piece.weave_of_params hafter, hbefore]
  rfl

/-- Pieces without parameters leave their script, whatever the style. -/
theorem text_ofPieces_of_params (dialect : Dialect) {pieces : List Piece}
    (h : Piece.params pieces = []) : (ofPieces dialect pieces).text = Piece.script pieces := by
  rw [ofPieces_eq]
  exact Piece.weave_of_params h _ _

/-- Pieces with words leave a text, whatever the style. -/
theorem text_ne_empty {pieces : List Piece} (h : Piece.Shows pieces) (dialect : Dialect) :
    (ofPieces dialect pieces).text ≠ "" := by
  rw [ofPieces_eq]
  exact Piece.weave_ne_empty h _ _

end Buffer

end EntityQuery.Sql
