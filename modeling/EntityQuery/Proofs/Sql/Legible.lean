import EntityQuery.Proofs.Sql.Lexeme
import EntityQuery.Sql.Buffer

/-!
# Proofs/Sql/Legible — pieces that do not run together

Pieces are written one after the other without anything between.  They are legible when each of them
can be read by itself and no two words touch (`Legible`): then the terminals of the whole text are
those of the pieces, with the parameters in the place of the placeholders (`terminals?_ofPieces`).

Legible lists are built from the left: a piece that ends with a mark or a blank goes in front of
anything, and a piece that begins so goes behind anything.
-/

namespace EntityQuery.Sql

/-! ## Written pieces -/

namespace Piece

/-- The characters of a piece, after some parameters. -/
def chars (style : Placeholder) (number : Nat) : Piece → List Char
  | .fixed text => text.toList
  | .name text => text.toList
  | .param _ => (style.write (number + 1)).toList

/-- The characters of pieces, after some parameters. -/
def written (style : Placeholder) : Nat → List Piece → List Char
  | _, [] => []
  | number, piece :: rest =>
      piece.chars style number ++ written style (number + piece.param?.toList.length) rest

/-- The terminals of a piece. -/
def terminals : Piece → Terminals
  | .fixed text => ((lexemes text.toList).filterMap Sign.ofLexeme?).map .sign
  | .name text => [.sign (.name text)]
  | .param value => [.param value]

/-- Whether a piece may begin with a character of a word. -/
def opens : Piece → Bool
  | .fixed text => text.toList.head?.any isWordChar
  | _ => true

/-- Whether a piece may end with a character of a word. -/
def ends : Piece → Bool
  | .fixed text => text.toList.getLast?.any isWordChar
  | _ => true

/-- Pieces of which at least one meets the other with a mark or a blank. -/
def Apart (first second : Piece) : Prop :=
  first.ends = false ∨ second.opens = false

/-- A piece that can be read by itself. -/
def Lexical : Piece → Prop
  | .fixed text => text.toList ≠ [] ∧ (lexemes text.toList).mapM Terminal.ofLexeme?
      = some (((lexemes text.toList).filterMap Sign.ofLexeme?).map .sign)
  | .name text => PlainWord text
  | .param _ => True

instance : DecidablePred Lexical
  | .fixed _ => inferInstanceAs (Decidable (_ ∧ _))
  | .name text => inferInstanceAs (Decidable (PlainWord text))
  | .param _ => inferInstanceAs (Decidable True)

end Piece

/-- Pieces that can be read by themselves and do not run together. -/
structure Legible (pieces : List Piece) : Prop where
  lexical : ∀ piece ∈ pieces, piece.Lexical
  apart : pieces.IsChain Piece.Apart

/-- The text of a buffer goes on with the characters of the pieces. -/
theorem Buffer.toList_appendAll (pieces : List Piece) (buffer : Buffer) :
    (buffer.appendAll pieces).text.toList
      = buffer.text.toList ++ Piece.written buffer.placeholder buffer.paramIndex pieces := by
  induction pieces generalizing buffer with
  | nil => exact (List.append_nil _).symm
  | cons piece rest ih =>
    have hpiece : (buffer.append piece).text.toList
        = buffer.text.toList ++ piece.chars buffer.placeholder buffer.paramIndex := by
      cases piece <;> exact String.toList_append
    refine (ih (buffer.append piece)).trans ?_
    rw [hpiece, paramIndex_append, placeholder_append, List.append_assoc, Piece.written]

/-! ## Building legible pieces -/

theorem Legible.nil : Legible [] := ⟨nofun, .nil⟩

theorem Legible.singleton {piece : Piece} (h : piece.Lexical) : Legible [piece] :=
  ⟨fun _ hpiece => List.mem_singleton.mp hpiece ▸ h, .singleton _⟩

theorem Legible.name {text : String} (h : PlainWord text) : Legible [.name text] := by
  have hname : (Piece.name text).Lexical := h
  exact .singleton hname

/-- Pieces go behind others when they begin with a mark or a blank. -/
theorem Legible.append {first second : List Piece} (hfirst : Legible first)
    (hsecond : Legible second) (h : ∀ piece ∈ second.head?, piece.opens = false) :
    Legible (first ++ second) where
  lexical piece hpiece :=
    (List.mem_append.mp hpiece).elim (hfirst.lexical piece) (hsecond.lexical piece)
  apart := List.isChain_append.mpr
    ⟨hfirst.apart, hsecond.apart, fun _ _ piece hpiece => .inr (h piece hpiece)⟩

/-- A piece goes in front of others when it ends with a mark or a blank. -/
theorem Legible.cons {piece : Piece} {rest : List Piece} (h : piece.Lexical ∧ piece.ends = false)
    (hrest : Legible rest) : Legible (piece :: rest) where
  lexical := List.forall_mem_cons.mpr ⟨h.1, hrest.lexical⟩
  apart := List.isChain_cons.mpr ⟨fun _ _ => .inl h.2, hrest.apart⟩

/-- A separator that can be read by itself, with marks or blanks on both sides. -/
def Separates (separator : String) : Prop :=
  (Piece.fixed separator).Lexical ∧ (Piece.fixed separator).opens = false
    ∧ (Piece.fixed separator).ends = false

instance (separator : String) : Decidable (Separates separator) :=
  inferInstanceAs (Decidable (_ ∧ _ ∧ _))

/-- Legible pieces with a separator between. -/
theorem Legible.separated {separator : String} {first second : List Piece}
    (h : Separates separator) (hfirst : Legible first) (hsecond : Legible second) :
    Legible (first ++ .fixed separator :: second) := by
  obtain ⟨hlexical, hopens, hends⟩ := h
  refine hfirst.append (hsecond.cons ⟨hlexical, hends⟩) fun piece hpiece => ?_
  cases hpiece
  exact hopens

/-- A separator with a mark or a blank at both ends keeps what it joins apart. -/
theorem Legible.join {separator : String} (h : Separates separator) :
    ∀ {lists : List (List Piece)}, (∀ pieces ∈ lists, Legible pieces) →
      Legible (Piece.join separator lists)
  | [], _ => .nil
  | [pieces], hlists => hlists pieces List.mem_cons_self
  | pieces :: next :: rest, hlists => by
      obtain ⟨hfirst, hrest⟩ := List.forall_mem_cons.mp hlists
      rw [Piece.join]
      · exact hfirst.separated h (Legible.join h hrest)
      · exact List.cons_ne_nil _ _

/-! ## The terminals of legible pieces -/

namespace Piece

variable (style : Placeholder) (number : Nat)

/-- A piece that can be read has a character. -/
theorem chars_ne_nil {piece : Piece} (h : piece.Lexical) : piece.chars style number ≠ [] := by
  cases piece with
  | fixed text => exact h.1
  | name text => exact (isWordChar_of_isName h.1).1
  | param value => exact write_ne_nil style _

theorem not_isWordChar_of_opens {piece : Piece} (h : piece.opens = false) {c : Char}
    (hc : c ∈ (piece.chars style number).head?) : isWordChar c = false := by
  cases piece with
  | fixed text =>
    have hopens : text.toList.head?.any isWordChar = false := h
    rw [Option.mem_def] at hc
    rw [chars] at hc
    rwa [hc] at hopens
  | name text => cases h
  | param value => cases h

theorem not_isWordChar_of_ends {piece : Piece} (h : piece.ends = false) {c : Char}
    (hc : c ∈ (piece.chars style number).getLast?) : isWordChar c = false := by
  cases piece with
  | fixed text =>
    have hends : text.toList.getLast?.any isWordChar = false := h
    rw [Option.mem_def] at hc
    rw [chars] at hc
    rwa [hc] at hends
  | name text => cases h
  | param value => cases h

/-- The lexemes of pieces that do not run together are those of the first piece and those of the
others, if what begins with a mark or a blank is not empty. -/
theorem lexemes_written_of_apart {piece : Piece} {rest : List Piece}
    (h : (piece :: rest).IsChain Apart) (hne : ∀ next ∈ rest.head?, next.opens = false → ∀ number,
      next.chars style number ≠ []) :
    lexemes (written style number (piece :: rest))
      = lexemes (piece.chars style number)
        ++ lexemes (written style (number + piece.param?.toList.length) rest) := by
  refine lexemes_append fun a ha b hb => ?_
  rw [glued, Bool.and_eq_false_iff]
  cases rest with
  | nil => cases hb
  | cons next others =>
    rcases (List.isChain_cons_cons.mp h).1 with hends | hopens
    · exact .inl (not_isWordChar_of_ends style number hends ha)
    · rw [written, List.head?_append_of_ne_nil _ (hne next rfl hopens _)] at hb
      exact .inr (not_isWordChar_of_opens style _ hopens hb)

/-- The lexemes of a text are those of its first piece and those of the rest. -/
theorem lexemes_written_cons {piece : Piece} {rest : List Piece} (h : Legible (piece :: rest)) :
    lexemes (written style number (piece :: rest))
      = lexemes (piece.chars style number)
        ++ lexemes (written style (number + piece.param?.toList.length) rest) :=
  lexemes_written_of_apart style number h.apart fun _ hnext _ number =>
    chars_ne_nil style number
      (h.lexical _ (List.mem_cons_of_mem _ (List.mem_of_mem_head? hnext)))

/-- What a piece is read as, before its parameter is known. -/
def slots : Piece → List (Terminal (Option Nat))
  | .fixed text => ((lexemes text.toList).filterMap Sign.ofLexeme?).map .sign
  | .name text => [.sign (.name text)]
  | .param _ => [.param (style.slot (number + 1))]

/-- The lexemes of a piece are what it stands for, its placeholder open. -/
theorem mapM_ofLexeme?_chars {piece : Piece} (h : piece.Lexical) :
    (lexemes (piece.chars style number)).mapM Terminal.ofLexeme?
      = some (piece.slots style number) := by
  cases piece with
  | fixed text => exact h.2
  | name text =>
    rw [chars, lexemes_of_plainWord h, List.mapM_cons, Terminal.ofLexeme?_of_plainWord h]
    rfl
  | param value =>
    rw [chars, lexemes_write, List.mapM_cons, Terminal.ofLexeme?_write]
    rfl

/-- The parameter of a piece is put in its place. -/
theorem fill_slots (piece : Piece) (values : List Value) (rest : List (Terminal (Option Nat))) :
    Terminal.fill number (piece.param?.toList ++ values) (piece.slots style number ++ rest)
      = (Terminal.fill (number + piece.param?.toList.length) values rest).map
          (piece.terminals ++ ·) := by
  cases piece with
  | fixed text => exact Terminal.fill_signs _ number values rest
  | name text => exact Terminal.fill_signs [.name text] number values rest
  | param value => exact Terminal.fill_param style number value values rest

theorem params_cons (piece : Piece) (rest : List Piece) :
    params (piece :: rest) = piece.param?.toList ++ params rest := by
  rw [params, List.filterMap_cons]
  cases piece.param? <;> rfl

/-- The lexemes of words behind which a number is written. -/
theorem lexemes_append_repr {words : String} (h : (Piece.fixed words).ends = false) (n : Nat) :
    lexemes (words ++ n.repr).toList = lexemes words.toList ++ [n.repr.toList] := by
  rw [String.toList_append, lexemes_append, lexemes_repr]
  intro a ha b _
  rw [glued, not_isWordChar_of_ends .questionMark 0 h ha, Bool.false_and]

/-- Words with a number behind them can be read by themselves. -/
theorem lexical_append_repr {words : String}
    (h : (Piece.fixed words).Lexical ∧ (Piece.fixed words).ends = false) (n : Nat) :
    (Piece.fixed (words ++ n.repr)).Lexical := by
  obtain ⟨hwords, hends⟩ := h
  refine ⟨?_, ?_⟩
  · rw [String.toList_append]
    exact List.append_ne_nil_of_left_ne_nil hwords.1 _
  · rw [lexemes_append_repr hends, List.mapM_append, hwords.2, List.mapM_cons,
      Terminal.ofLexeme?_repr, List.filterMap_append, List.filterMap_cons, Sign.ofLexeme?_repr,
      List.map_append]
    rfl

/-- Words and a number are the words and the number. -/
theorem terminals_append_repr {words : String} (h : (Piece.fixed words).ends = false) (n : Nat) :
    (Piece.fixed (words ++ n.repr)).terminals
      = (Piece.fixed words).terminals ++ [.sign (.number n)] := by
  rw [terminals, lexemes_append_repr h, List.filterMap_append, List.filterMap_cons,
    Sign.ofLexeme?_repr, List.map_append]
  rfl

/-- **Legible pieces are read as their terminals.** -/
theorem fill_written {pieces : List Piece} (h : Legible pieces) :
    ((lexemes (written style number pieces)).mapM Terminal.ofLexeme?).bind
        (Terminal.fill number (params pieces))
      = some (pieces.flatMap terminals) := by
  induction pieces generalizing number with
  | nil => rfl
  | cons piece rest ih =>
    have hrest : Legible rest :=
      ⟨fun other hother => h.lexical other (List.mem_cons_of_mem _ hother), h.apart.tail⟩
    obtain ⟨read, hread, hfill⟩ := Option.bind_eq_some_iff.mp
      (ih (number + piece.param?.toList.length) hrest)
    have hpieces : (lexemes (written style number (piece :: rest))).mapM Terminal.ofLexeme?
        = some (piece.slots style number ++ read) := by
      rw [lexemes_written_cons style number h, List.mapM_append,
        mapM_ofLexeme?_chars style number (h.lexical piece List.mem_cons_self), hread]
      rfl
    rw [hpieces, Option.bind_some, params_cons, fill_slots, hfill, List.flatMap_cons]
    rfl

end Piece

/-- **The text of legible pieces has their terminals**, with their parameters. -/
theorem terminals?_ofPieces (dialect : Dialect) {pieces : List Piece} (h : Legible pieces) :
    terminals? (Buffer.ofPieces dialect pieces).text
        (Buffer.ofPieces dialect pieces).params.toList
      = some (pieces.flatMap Piece.terminals) := by
  have htext : (Buffer.ofPieces dialect pieces).text.toList
      = Piece.written dialect.placeholder 0 pieces :=
    Buffer.toList_appendAll pieces (.empty dialect.placeholder)
  have hparams : (Buffer.ofPieces dialect pieces).params.toList = Piece.params pieces :=
    Buffer.params_appendAll pieces (.empty dialect.placeholder)
  rw [terminals?, htext, hparams]
  exact Piece.fill_written dialect.placeholder 0 h

end EntityQuery.Sql
