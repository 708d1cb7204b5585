import EntityQuery.Proofs.Sql.Layered

/-!
# Proofs/Sql/Provenance — where the words of a text come from

    person.age > $1 LIMIT 10        person  .  age  >  $1  LIMIT  10
    └─ mentions: person, age, 10        names · phrases · placeholders · numbers

A statement is written with phrases of its own, the names and numbers that it mentions
(`Expr.mentions`, `Select.mentions`), and placeholders; nothing is quoted or checked.  The phrases
begin and end so that nothing runs together with a name, whatever the name is, so a lexeme of the
text is a lexeme of one piece: it is spelt like a sign, is a placeholder or a number, or is a lexeme
of a name (`Traced.origin`).  With question marks the text has one for each parameter, unless there
are some in a name (`Traced.count_questionMark`).
-/

namespace EntityQuery.Sql

/-! ## What a statement mentions -/

/-- A part of a statement that is not a word of SQL. -/
inductive Mention where
  | name (text : String)
  | number (value : Nat)
  deriving DecidableEq, Repr

/-- The names of a column. -/
def Column.mentions (column : Column) : List Mention :=
  [.name column.table, .name column.name]

def SelectList.mentions : SelectList → List Mention
  | .columns listed => listed.flatMap Column.mentions
  | .star table => [.name table]

/-- The columns to sort by. -/
def orderMentions (order : List SortTerm) : List Mention :=
  order.flatMap fun term => term.column.mentions

/-- The numbers of a page. -/
def Limit.mentions (limit : Limit) : List Mention :=
  (limit.limit.toList ++ limit.offset.toList).map fun count => .number count.toNat

mutual

/-- The names and numbers of an expression. -/
def Expr.mentions : Expr → List Mention
  | .and operands => listMentions operands
  | .or operands => listMentions operands
  | .not operand => operand.mentions
  | .group operand => operand.mentions
  | .compare left _ right => left.mentions ++ right.mentions
  | .inList operand items => operand.mentions ++ listMentions items
  | .inSelect operand select => operand.mentions ++ select.mentions
  | .column column => column.mentions
  | .value _ => []

/-- The names and numbers of expressions, one after the other. -/
def listMentions : List Expr → List Mention
  | [] => []
  | operand :: rest => operand.mentions ++ listMentions rest

/-- The names and numbers of a condition that may be left out. -/
def conditionMentions : Option Expr → List Mention
  | none => []
  | some condition => condition.mentions

/-- The names and numbers of a selection. -/
def Select.mentions : Select → List Mention
  | ⟨list, table, condition, order, limit⟩ =>
      list.mentions ++ .name table :: conditionMentions condition
        ++ orderMentions order ++ limit.mentions

end

/-! ## Pieces of known origin -/

/-- The words and marks that statements are written with. -/
def phrases : List String :=
  [" AND ", " OR ", "NOT ", "(", ")", ", ", ".", ".*", " = ", " > ", " < ", " LIKE ", " IN (",
    "SELECT ", " ", "FROM ", " WHERE ", "ORDER BY ", " ASC", " DESC", " NULLS FIRST",
    " NULLS LAST"]

/-- The words in front of the numbers of a page. -/
def pagePhrases : List String := ["LIMIT ", " OFFSET "]

/-- Whether a piece is a phrase, or mentioned, or a parameter. -/
def Piece.Known (mentions : List Mention) : Piece → Prop
  | .fixed text => text ∈ phrases ∨ ∃ words ∈ pagePhrases, ∃ value,
      Mention.number value ∈ mentions ∧ text = words ++ value.repr
  | .name text => .name text ∈ mentions
  | .param _ => True

/-- Pieces of known origin that do not run together. -/
structure Traced (mentions : List Mention) (pieces : List Piece) : Prop where
  known : ∀ piece ∈ pieces, piece.Known mentions
  apart : pieces.IsChain Piece.Apart

/-- A phrase that ends with a mark or a blank. -/
def Leads (text : String) : Prop :=
  text ∈ phrases ∧ (Piece.fixed text).ends = false

/-- A phrase that begins with a mark or a blank. -/
def Trails (text : String) : Prop :=
  text ∈ phrases ∧ (Piece.fixed text).opens = false

instance (text : String) : Decidable (Leads text) := inferInstanceAs (Decidable (_ ∧ _))

instance (text : String) : Decidable (Trails text) := inferInstanceAs (Decidable (_ ∧ _))

namespace Traced

variable {mentions : List Mention} {first second rest : List Piece}

theorem nil : Traced mentions [] := ⟨nofun, .nil⟩

/-- One piece has nothing to run together with. -/
theorem singleton {piece : Piece} (h : piece.Known mentions) : Traced mentions [piece] :=
  ⟨fun _ hpiece => List.mem_singleton.mp hpiece ▸ h, .singleton _⟩

/-- Pieces go behind others when they begin with a mark or a blank. -/
theorem append (hfirst : Traced mentions first) (hsecond : Traced mentions second)
    (h : ∀ piece ∈ second.head?, piece.opens = false) : Traced mentions (first ++ second) where
  known piece hpiece :=
    (List.mem_append.mp hpiece).elim (hfirst.known piece) (hsecond.known piece)
  apart := List.isChain_append.mpr
    ⟨hfirst.apart, hsecond.apart, fun _ _ piece hpiece => .inr (h piece hpiece)⟩

/-- A phrase goes in front of anything when it ends with a mark or a blank. -/
theorem lead {text : String} (h : Leads text) (hrest : Traced mentions rest) :
    Traced mentions (.fixed text :: rest) where
  known := List.forall_mem_cons.mpr ⟨.inl h.1, hrest.known⟩
  apart := List.isChain_cons.mpr ⟨fun _ _ => .inl h.2, hrest.apart⟩

/-- A phrase goes behind anything when it begins with a mark or a blank. -/
theorem trail {text : String} (hfirst : Traced mentions first) (h : Trails text)
    (hrest : Traced mentions (.fixed text :: rest)) :
    Traced mentions (first ++ .fixed text :: rest) := by
  refine hfirst.append hrest fun piece hpiece => ?_
  obtain rfl := Option.some.inj hpiece
  exact h.2

/-- Between two texts, a phrase with a mark or a blank at both ends keeps lexemes apart. -/
theorem separated {separator : String} (h : Leads separator ∧ Trails separator)
    (hfirst : Traced mentions first) (hsecond : Traced mentions second) :
    Traced mentions (first ++ .fixed separator :: second) :=
  hfirst.trail h.2 (hsecond.lead h.1)

theorem closed (h : Traced mentions first) : Traced mentions (first ++ [.fixed ")"]) :=
  h.trail (by decide) (.lead (by decide) .nil)

/-- A separator keeps what it joins apart. -/
theorem join {separator : String} (h : Leads separator ∧ Trails separator) :
    ∀ {lists : List (List Piece)}, (∀ pieces ∈ lists, Traced mentions pieces) →
      Traced mentions (Piece.join separator lists)
  | [], _ => .nil
  | [pieces], hlists => hlists pieces List.mem_cons_self
  | pieces :: next :: rest, hlists => by
      obtain ⟨hfirst, hrest⟩ := List.forall_mem_cons.mp hlists
      rw [Piece.join]
      · exact hfirst.separated h (Traced.join h hrest)
      · exact List.cons_ne_nil _ _

end Traced

/-! ## Every statement is traced -/

section Statements

variable {mentions : List Mention}

theorem Column.traced {column : Column} (h : column.mentions ⊆ mentions) :
    Traced mentions column.pieces := by
  have htable : Traced mentions [.name column.table] := .singleton (h List.mem_cons_self)
  have hname : Traced mentions [.name column.name] :=
    .singleton (h (List.mem_cons_of_mem _ List.mem_cons_self))
  exact htable.separated (by decide) hname

/-- A select list is traced to its columns. -/
theorem SelectList.traced {list : SelectList} (h : list.mentions ⊆ mentions) :
    Traced mentions list.pieces := by
  rcases list with listed | table
  · refine Traced.join (by decide) fun pieces hpieces => ?_
    obtain ⟨column, hcolumn, rfl⟩ := List.mem_map.mp hpieces
    exact column.traced fun mention hmention =>
      h (List.mem_flatMap.mpr ⟨column, hcolumn, hmention⟩)
  · have htable : Traced mentions [.name table] := .singleton (h List.mem_cons_self)
    exact htable.separated (by decide) .nil

theorem SortDirection.trails (direction : SortDirection) : Trails direction.text := by
  rcases direction <;> decide

theorem NullsOrder.trails (place : NullsOrder) : Trails place.text := by
  rcases place <;> decide

/-- A sort term is traced to its column. -/
theorem SortTerm.traced {term : SortTerm} (h : term.column.mentions ⊆ mentions) :
    Traced mentions term.pieces := by
  obtain ⟨column, direction, nulls⟩ := term
  have hdirection : Traced mentions [.fixed direction.text] :=
    .singleton (.inl direction.trails.1)
  have hwords : Traced mentions
      (.fixed direction.text :: nulls.toList.map fun place => .fixed place.text) := by
    rcases nulls with _ | place
    · exact hdirection
    · exact hdirection.trail place.trails (.singleton (.inl place.trails.1))
  exact (column.traced h).trail direction.trails hwords

theorem traced_order {order : List SortTerm} (h : orderMentions order ⊆ mentions) :
    Traced mentions (orderPieces order) := by
  rcases order with _ | ⟨term, rest⟩
  · exact .nil
  · refine Traced.lead (by decide) (Traced.join (by decide) fun pieces hpieces => ?_)
    obtain ⟨listed, hlisted, rfl⟩ := List.mem_map.mp hpieces
    exact listed.traced fun mention hmention =>
      h (List.mem_flatMap.mpr ⟨listed, hlisted, hmention⟩)

/-- A limit is traced to its numbers. -/
theorem Limit.traced {limit : Limit} (h : limit.mentions ⊆ mentions) :
    Traced mentions limit.pieces := by
  obtain ⟨count, offset⟩ := limit
  rcases count with _ | count
  · exact .nil
  have hcount : Traced mentions [.fixed ("LIMIT " ++ count.toNat.repr)] :=
    .singleton (.inr ⟨"LIMIT ", by decide, count.toNat, h List.mem_cons_self, rfl⟩)
  rcases offset with _ | offset
  · exact hcount
  · have hoffset : Traced mentions [.fixed (" OFFSET " ++ offset.toNat.repr)] :=
      .singleton (.inr ⟨" OFFSET ", by decide, offset.toNat,
        h (List.mem_cons_of_mem _ List.mem_cons_self), rfl⟩)
    refine hcount.append hoffset fun piece hpiece => ?_
    obtain rfl := Option.some.inj hpiece
    rw [Piece.opens, String.toList_append]
    rfl

/-- A clause of a selection has a blank in front, if it is there. -/
theorem Traced.clause {absent : Bool} {first pieces : List Piece} (hfirst : Traced mentions first)
    (h : Traced mentions pieces) :
    Traced mentions (first ++ if absent then [] else .fixed " " :: pieces) := by
  rcases absent
  · exact hfirst.separated (by decide) h
  · exact (List.append_nil first).symm ▸ hfirst

theorem Comparison.separates_phrase (comparison : Comparison) :
    Leads comparison.text ∧ Trails comparison.text := by
  rcases comparison <;> decide

mutual

/-- **The pieces of every expression are traced** to what it mentions. -/
theorem Expr.traced : ∀ {expr : Expr}, expr.mentions ⊆ mentions → Traced mentions expr.pieces
  | .and operands, h => by
      rw [Expr.pieces]
      exact Traced.join (by decide) (traced_pieceLists h)
  | .or operands, h => by
      rw [Expr.pieces]
      exact Traced.join (by decide) (traced_pieceLists h)
  | .not operand, h => by
      rw [Expr.pieces]
      exact (@Expr.traced operand h).lead (by decide)
  | .group operand, h => by
      rw [Expr.pieces]
      exact ((@Expr.traced operand h).lead (by decide)).closed
  | .compare left comparison right, h => by
      obtain ⟨hleft, hright⟩ := List.append_subset.mp h
      rw [Expr.pieces]
      exact (Expr.traced hleft).separated comparison.separates_phrase (Expr.traced hright)
  | .inList operand items, h => by
      obtain ⟨hoperand, hitems⟩ := List.append_subset.mp h
      have hlist : Traced mentions (Piece.join ", " (pieceLists items)) :=
        Traced.join (by decide) (traced_pieceLists hitems)
      rw [Expr.pieces]
      exact ((Expr.traced hoperand).separated (by decide) hlist).closed
  | .inSelect operand select, h => by
      obtain ⟨hoperand, hselect⟩ := List.append_subset.mp h
      rw [Expr.pieces]
      exact ((Expr.traced hoperand).separated (by decide) (Select.traced hselect)).closed
  | .column column, h => column.traced h
  | .value value, _ => .singleton trivial

theorem traced_pieceLists : ∀ {operands : List Expr}, listMentions operands ⊆ mentions →
    ∀ pieces ∈ pieceLists operands, Traced mentions pieces
  | [], _, _, hpieces => nomatch hpieces
  | operand :: rest, h, pieces, hpieces => by
      obtain ⟨hfirst, hrest⟩ := List.append_subset.mp h
      rcases List.mem_cons.mp hpieces with rfl | hpieces
      · exact Expr.traced hfirst
      · exact traced_pieceLists hrest pieces hpieces

theorem traced_condition : ∀ {condition : Option Expr}, conditionMentions condition ⊆ mentions →
    Traced mentions (conditionPieces condition)
  | none, _ => .nil
  | some condition, h => (@Expr.traced condition h).lead (by decide)

/-- **The pieces of every selection are traced** to what it mentions. -/
theorem Select.traced : ∀ {select : Select}, select.mentions ⊆ mentions →
    Traced mentions select.pieces
  | ⟨list, table, condition, order, limit⟩, h => by
      rw [Select.mentions] at h
      obtain ⟨h, hlimit⟩ := List.append_subset.mp h
      obtain ⟨h, horder⟩ := List.append_subset.mp h
      obtain ⟨hlist, h⟩ := List.append_subset.mp h
      obtain ⟨htable, hcondition⟩ := List.cons_subset.mp h
      rw [Select.pieces]
      refine Traced.clause (Traced.clause ?_ (traced_order horder)) (Limit.traced hlimit)
      refine Traced.separated (by decide) ((SelectList.traced hlist).lead (by decide)) ?_
      have hname : Traced mentions [.name table] := .singleton htable
      refine Traced.lead (by decide) (hname.append (traced_condition hcondition) ?_)
      rcases condition with _ | condition
      · nofun
      · intro piece hpiece
        obtain rfl := Option.some.inj hpiece
        decide

end

end Statements

/-! ## The lexemes of traced pieces -/

/-- Where a lexeme of a statement comes from. -/
inductive Origin (style : Placeholder) (mentions : List Mention) (lexeme : List Char) : Prop where
  | sign (h : lexeme ∈ Sign.spellings.map fun spelling => spelling.1.toList)
  | placeholder (number : Nat) (h : lexeme = (style.write number).toList)
  | number (value : Nat) (hvalue : Mention.number value ∈ mentions)
    (h : lexeme = value.repr.toList)
  | name (text : String) (htext : Mention.name text ∈ mentions) (h : lexeme ∈ lexemes text.toList)

/-- The lexemes of a phrase are spelt like signs. -/
theorem lexemes_phrase : ∀ text ∈ phrases ++ pagePhrases, ∀ lexeme ∈ lexemes text.toList,
    lexeme ∈ Sign.spellings.map fun spelling => spelling.1.toList := by
  decide

/-- No phrase is empty. -/
theorem phrase_ne_nil : ∀ text ∈ phrases ++ pagePhrases, text.toList ≠ [] := by
  decide

/-- A number of a page stands behind a blank. -/
theorem ends_pagePhrase : ∀ words ∈ pagePhrases, (Piece.fixed words).ends = false := by
  decide

namespace Traced

variable {mentions : List Mention} {style : Placeholder} {number : Nat}

/-- What begins with a mark or a blank is not empty. -/
theorem chars_ne_nil {piece : Piece} (h : piece.Known mentions) (hopens : piece.opens = false) :
    piece.chars style number ≠ [] := by
  rcases piece with text | text | value
  · rcases h with hphrase | ⟨words, hwords, value, -, rfl⟩
    · exact phrase_ne_nil text (List.mem_append_left _ hphrase)
    · rw [Piece.chars, String.toList_append]
      exact List.append_ne_nil_of_left_ne_nil
        (phrase_ne_nil words (List.mem_append_right _ hwords)) _
  · contradiction
  · contradiction

/-- The lexemes of a piece of known origin. -/
theorem origin_chars {piece : Piece} (h : piece.Known mentions) {lexeme : List Char}
    (hlexeme : lexeme ∈ lexemes (piece.chars style number)) : Origin style mentions lexeme := by
  rcases piece with text | text | value
  · rcases h with hphrase | ⟨words, hwords, value, hvalue, rfl⟩
    · exact .sign (lexemes_phrase text (List.mem_append_left _ hphrase) lexeme hlexeme)
    · rw [Piece.chars, Piece.lexemes_append_repr (ends_pagePhrase words hwords)] at hlexeme
      rcases List.mem_append.mp hlexeme with hword | hnumber
      · exact .sign (lexemes_phrase words (List.mem_append_right _ hwords) lexeme hword)
      · exact .number value hvalue (List.mem_singleton.mp hnumber)
  · exact .name text h hlexeme
  · rw [Piece.chars, lexemes_write, List.mem_singleton] at hlexeme
    exact .placeholder (number + 1) hlexeme

/-- **Every lexeme of traced pieces has an origin.** -/
theorem origin {pieces : List Piece} (h : Traced mentions pieces) {lexeme : List Char}
    (hlexeme : lexeme ∈ lexemes (Piece.written style number pieces)) :
    Origin style mentions lexeme := by
  induction pieces generalizing number with
  | nil => exact nomatch hlexeme
  | cons piece rest ih =>
    obtain ⟨hpiece, hrest⟩ := List.forall_mem_cons.mp h.known
    have hnext : ∀ next ∈ rest.head?, next.opens = false → ∀ number,
        next.chars style number ≠ [] := fun next hnext hopens number =>
      chars_ne_nil (hrest next (List.mem_of_mem_head? hnext)) hopens
    rw [Piece.lexemes_written_of_apart style number h.apart hnext] at hlexeme
    rcases List.mem_append.mp hlexeme with hfirst | hothers
    · exact origin_chars hpiece hfirst
    · exact ih ⟨hrest, h.apart.tail⟩ hothers

/-- The question marks of a piece of known origin: the one of a parameter. -/
theorem count_chars {piece : Piece} (h : piece.Known mentions)
    (hnames : ∀ text, Mention.name text ∈ mentions → '?' ∉ text.toList) :
    (piece.chars .questionMark number).count '?' = piece.param?.toList.length := by
  have hphrases : ∀ text ∈ phrases ++ pagePhrases, '?' ∉ text.toList := by decide
  rcases piece with text | text | value
  · refine List.count_eq_zero.mpr ?_
    rcases h with hphrase | ⟨words, hwords, value, -, rfl⟩
    · exact hphrases text (List.mem_append_left _ hphrase)
    · rw [Piece.chars, String.toList_append, List.mem_append]
      rintro (hmark | hmark)
      · exact hphrases words (List.mem_append_right _ hwords) hmark
      · exact absurd (isDigit_of_mem_repr hmark) (by decide)
  · exact List.count_eq_zero.mpr (hnames text h)
  · rw [Piece.chars, toList_questionMark]
    rfl

/-- **There is a question mark for every parameter**, if there are none in the names. -/
theorem count_questionMark {pieces : List Piece} (h : Traced mentions pieces)
    (hnames : ∀ text, Mention.name text ∈ mentions → '?' ∉ text.toList) :
    (Piece.written .questionMark number pieces).count '?' = (Piece.params pieces).length := by
  induction pieces generalizing number with
  | nil => rfl
  | cons piece rest ih =>
    obtain ⟨hpiece, hrest⟩ := List.forall_mem_cons.mp h.known
    rw [Piece.written, List.count_append, count_chars hpiece hnames, ih ⟨hrest, h.apart.tail⟩,
      Piece.params_cons, List.length_append]

end Traced

end EntityQuery.Sql
