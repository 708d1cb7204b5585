import Mathlib.Data.List.SplitBy
import EntityQuery.Proofs.Sql.Grammar
import EntityQuery.Sql.Dialect

/-!
# Proofs/Sql/Lexeme — from text to terminals

    person.age > ?        ──lexemes──▸        person  .  age  >  ?        ──fill──▸        … > 18

A text falls into words, which are as long as they can be, and single marks; blanks only separate
(`lexemes`).  Words that are not keywords are names, a placeholder may have a number, and `fill`
puts the parameters in place of the placeholders from left to right — numbered ones only in their
turn.  Names have to be plain words for their lexeme to be themselves
(`Terminal.ofLexeme?_of_plainWord`).
-/

namespace EntityQuery

namespace Sql

/-! ## Lexemes -/

/-- Whether a character can be part of a word; placeholders are words. -/
def isWordChar (c : Char) : Bool :=
  c.isAlphanum || c == '_' || c == '$' || c == '?'

/-- Whether neighbours belong to one word. -/
def glued (a b : Char) : Bool :=
  isWordChar a && isWordChar b

/-- The words and marks of a text, without the blanks. -/
def lexemes (text : List Char) : List (List Char) :=
  (text.splitBy glued).filter fun lexeme => decide (lexeme ≠ [' '])

/-- Texts that do not run together have their lexemes one after the other. -/
theorem lexemes_append {first second : List Char}
    (h : ∀ a ∈ first.getLast?, ∀ b ∈ second.head?, glued a b = false) :
    lexemes (first ++ second) = lexemes first ++ lexemes second := by
  rw [lexemes, List.splitBy_append h, List.filter_append]
  rfl

/-- A word is its only lexeme. -/
theorem lexemes_word {word : List Char} (hne : word ≠ []) (h : ∀ c ∈ word, isWordChar c) :
    lexemes word = [word] := by
  have hchain : word.IsChain fun a b => glued a b :=
    (List.pairwise_of_forall_mem_list fun a ha b hb => by
      rw [glued, h a ha, h b hb]
      rfl).isChain
  have hblank : word ≠ [' '] := by
    rintro rfl
    exact absurd (h ' ' List.mem_cons_self) (by decide)
  rw [lexemes, List.splitBy_of_isChain hne hchain, List.filter_singleton, decide_eq_true hblank]
  rfl

/-! ## Signs -/

namespace Sign

/-- The signs that are always spelt alike; letters may be small. -/
def spellings : List (String × Sign) := [
  ("(", .opening), (")", .closing), (",", .comma), (".", .dot), ("*", .star),
  ("=", .comparison .equal), (">", .comparison .greater), ("<", .comparison .less),
  ("LIKE", .comparison .like), ("SELECT", .SELECT), ("FROM", .FROM), ("WHERE", .WHERE),
  ("ORDER", .ORDER), ("BY", .BY), ("ASC", .ASC), ("DESC", .DESC), ("NULLS", .NULLS),
  ("FIRST", .FIRST), ("LAST", .LAST), ("LIMIT", .LIMIT), ("OFFSET", .OFFSET), ("INSERT", .INSERT),
  ("INTO", .INTO), ("VALUES", .VALUES), ("AND", .AND), ("OR", .OR), ("NOT", .NOT), ("IN", .IN)]

/-- The sign that is spelt like a lexeme, in capitals. -/
def spelt? (lexeme : List Char) : Option Sign :=
  spellings.lookup (String.ofList (lexeme.map Char.toUpper))

/-- Whether a lexeme can be a name: letters, digits and underscores, and no digit first. -/
def isName : List Char → Bool
  | [] => false
  | first :: rest => (first.isAlpha || first == '_') && rest.all fun c => c.isAlphanum || c == '_'

/-- Whether a lexeme is a number. -/
def isNumber (lexeme : List Char) : Bool :=
  !lexeme.isEmpty && lexeme.all Char.isDigit

/-- The sign of a lexeme. -/
def ofLexeme? (lexeme : List Char) : Option Sign :=
  if isNumber lexeme then some (.number (Nat.ofDigitChars 10 lexeme 0))
  else match spelt? lexeme with
    | some sign => some sign
    | none => if isName lexeme then some (.name (String.ofList lexeme)) else none

end Sign

/-- Names that stand for themselves: words that are not spelt like a sign. -/
def PlainWord (text : String) : Prop :=
  Sign.isName text.toList ∧ Sign.spelt? text.toList = none

instance (text : String) : Decidable (PlainWord text) :=
  inferInstanceAs (Decidable (_ ∧ _))

/-! ## Terminals -/

namespace Terminal

/-- The terminal of a lexeme; of a placeholder, the number it has. -/
def ofLexeme? : List Char → Option (Terminal (Option Nat))
  | ['?'] => some (.param none)
  | '$' :: digits =>
      if Sign.isNumber digits then some (.param (some (Nat.ofDigitChars 10 digits 0))) else none
  | lexeme => (Sign.ofLexeme? lexeme).map .sign

/-- Values in place of placeholders, from left to right after a number of them; a placeholder with a
number must be the one of that number, and no value may be left over. -/
def fill : Nat → List Value → List (Terminal (Option Nat)) → Option Terminals
  | _, [], [] => some []
  | _, _ :: _, [] => none
  | number, values, .sign known :: rest => (fill number values rest).map (.sign known :: ·)
  | number, value :: values, .param slot :: rest =>
      if slot.all (· == number + 1) then (fill (number + 1) values rest).map (.param value :: ·)
      else none
  | _, [], .param _ :: _ => none

end Terminal

/-- The terminals of a text with parameters. -/
def terminals? (text : String) (params : List Value) : Option Terminals := do
  let read ← (lexemes text.toList).mapM Terminal.ofLexeme?
  Terminal.fill 0 params read

example : terminals? "a.b IN ($1)" [.null] = some [.sign (.name "a"), .sign .dot,
    .sign (.name "b"), .sign .IN, .sign .opening, .param .null, .sign .closing] := by decide

/-! ## Words of their own -/

/-- A name is a word. -/
theorem isWordChar_of_isName {lexeme : List Char} (h : Sign.isName lexeme) :
    lexeme ≠ [] ∧ ∀ c ∈ lexeme, isWordChar c := by
  match lexeme, h with
  | first :: rest, h =>
    rw [Sign.isName, Bool.and_eq_true, Bool.or_eq_true, List.all_eq_true] at h
    refine ⟨List.cons_ne_nil _ _, fun c hc => ?_⟩
    rcases List.mem_cons.mp hc with rfl | hc
    · rcases h.1 with hfirst | hfirst <;> simp [isWordChar, Char.isAlphanum, hfirst]
    · have hrest := h.2 c hc
      simp only [isWordChar, Bool.or_eq_true] at hrest ⊢
      exact .inl (.inl hrest)

/-- A letter is no digit. -/
theorem isDigit_of_isAlpha {c : Char} (h : c.isAlpha) : c.isDigit = false := by
  have hletter : 65 ≤ c.toNat := by
    have hcases : (decide (c.val ≥ 'A'.val ∧ c.val ≤ 'Z'.val)
        || (decide (c.val ≥ 'a'.val) && decide (c.val ≤ 'z'.val))) = true := h
    rw [Bool.or_eq_true, Bool.and_eq_true, decide_eq_true_eq, decide_eq_true_eq] at hcases
    rcases hcases with ⟨hupper, -⟩ | ⟨hlower, -⟩
    · exact UInt32.le_iff_toNat_le.mp hupper
    · exact Nat.le_trans (show 65 ≤ 97 by decide) (UInt32.le_iff_toNat_le.mp hlower)
  rw [← Bool.not_eq_true, Char.isDigit_iff_toNat]
  change ¬(48 ≤ c.toNat ∧ c.toNat ≤ 57)
  omega

/-- A name is no number: it begins otherwise. -/
theorem isNumber_of_isName {lexeme : List Char} (h : Sign.isName lexeme) :
    Sign.isNumber lexeme = false := by
  match lexeme, h with
  | first :: rest, h =>
    have hfirst : first.isDigit = false := by
      rw [Sign.isName, Bool.and_eq_true, Bool.or_eq_true, beq_iff_eq] at h
      rcases h.1 with hfirst | rfl
      · exact isDigit_of_isAlpha hfirst
      · rfl
    rw [Sign.isNumber, List.all_cons, hfirst, Bool.false_and, Bool.and_false]

/-- A plain word is one lexeme. -/
theorem lexemes_of_plainWord {text : String} (h : PlainWord text) :
    lexemes text.toList = [text.toList] :=
  lexemes_word (isWordChar_of_isName h.1).1 (isWordChar_of_isName h.1).2

/-- **A plain word is the name that it spells.** -/
theorem Terminal.ofLexeme?_of_plainWord {text : String} (h : PlainWord text) :
    ofLexeme? text.toList = some (.sign (.name text)) := by
  obtain ⟨hname, hspelt⟩ := h
  have hsign : Sign.ofLexeme? text.toList = some (.name text) := by
    have hnumber : Sign.isNumber text.toList = false := isNumber_of_isName hname
    rw [Sign.ofLexeme?, hnumber, hspelt, hname, String.ofList_toList]
    rfl
  rw [ofLexeme?, hsign]
  · rfl
  · intro h
    rw [h] at hname
    exact absurd hname (by decide)
  · intro digits h
    rw [h] at hname
    simp [Sign.isName] at hname

/-! ## Numbers and placeholders -/

theorem isDigit_of_mem_repr {n : Nat} {c : Char} (h : c ∈ n.repr.toList) : c.isDigit := by
  rw [Nat.toList_repr] at h
  exact Nat.isDigit_of_mem_toDigits (by decide) (by decide) h

theorem repr_ne_nil (n : Nat) : n.repr.toList ≠ [] := by
  rw [Nat.toList_repr]
  exact Nat.toDigits_ne_nil

theorem isWordChar_of_isDigit {c : Char} (h : c.isDigit) : isWordChar c := by
  simp [isWordChar, Char.isAlphanum, h]

/-- The digits of a number are a number. -/
theorem isNumber_repr (n : Nat) : Sign.isNumber n.repr.toList := by
  rw [Sign.isNumber, Bool.and_eq_true, List.all_eq_true]
  refine ⟨?_, fun c hc => isDigit_of_mem_repr hc⟩
  rw [Bool.not_eq_true', List.isEmpty_eq_false_iff]
  exact repr_ne_nil n

theorem ofDigitChars_repr (n : Nat) : Nat.ofDigitChars 10 n.repr.toList 0 = n := by
  rw [Nat.toList_repr, Nat.ofDigitChars_ten_toDigits]

/-- A number is one lexeme. -/
theorem lexemes_repr (n : Nat) : lexemes n.repr.toList = [n.repr.toList] :=
  lexemes_word (repr_ne_nil n) fun _ hc => isWordChar_of_isDigit (isDigit_of_mem_repr hc)

theorem Sign.ofLexeme?_repr (n : Nat) : ofLexeme? n.repr.toList = some (.number n) := by
  rw [ofLexeme?, if_pos (isNumber_repr n), ofDigitChars_repr]

/-- **A number is spelt by its digits.** -/
theorem Terminal.ofLexeme?_repr (n : Nat) :
    ofLexeme? n.repr.toList = some (.sign (.number n)) := by
  rw [ofLexeme?, Sign.ofLexeme?_repr]
  · rfl
  · intro h
    have hdigit : '?' ∈ n.repr.toList := h ▸ List.mem_cons_self
    exact absurd (isDigit_of_mem_repr hdigit) (by decide)
  · intro digits h
    have hdigit : '$' ∈ n.repr.toList := h ▸ List.mem_cons_self
    exact absurd (isDigit_of_mem_repr hdigit) (by decide)

end Sql

/-- The number that a placeholder shows. -/
def Placeholder.slot : Placeholder → Nat → Option Nat
  | .questionMark, _ => none
  | .numbered, number => some number

namespace Sql

theorem toList_questionMark (n : Nat) : (Placeholder.questionMark.write n).toList = ['?'] := by
  rw [Placeholder.write]
  rfl

theorem toList_numbered (n : Nat) :
    (Placeholder.numbered.write n).toList = '$' :: n.repr.toList := by
  rw [Placeholder.write, String.toList_append]
  rfl

theorem write_ne_nil (style : Placeholder) (n : Nat) : (style.write n).toList ≠ [] := by
  cases style with
  | questionMark => exact toList_questionMark n ▸ List.cons_ne_nil _ _
  | numbered => exact toList_numbered n ▸ List.cons_ne_nil _ _

/-- A placeholder is one lexeme. -/
theorem lexemes_write (style : Placeholder) (n : Nat) :
    lexemes (style.write n).toList = [(style.write n).toList] := by
  refine lexemes_word (write_ne_nil style n) fun c hc => ?_
  cases style with
  | questionMark =>
    rw [toList_questionMark, List.mem_singleton] at hc
    rw [hc]
    rfl
  | numbered =>
    rw [toList_numbered, List.mem_cons] at hc
    rcases hc with rfl | hc
    · rfl
    · exact isWordChar_of_isDigit (isDigit_of_mem_repr hc)

/-- **A placeholder is read with the number it shows.** -/
theorem Terminal.ofLexeme?_write (style : Placeholder) (n : Nat) :
    ofLexeme? (style.write n).toList = some (.param (style.slot n)) := by
  cases style with
  | questionMark =>
    rw [toList_questionMark]
    rfl
  | numbered =>
    rw [toList_numbered, ofLexeme?, if_pos (isNumber_repr n), ofDigitChars_repr]
    rfl

/-- A placeholder may stand for the parameter of its number. -/
theorem all_slot (style : Placeholder) (n : Nat) : (style.slot n).all (· == n) := by
  cases style with
  | questionMark => rfl
  | numbered => exact beq_self_eq_true n

/-! ## Filling -/

/-- Signs are passed over. -/
theorem Terminal.fill_signs (signs : List Sign) (number : Nat) (values : List Value)
    (rest : List (Terminal (Option Nat))) :
    fill number values (signs.map .sign ++ rest)
      = (fill number values rest).map (signs.map .sign ++ ·) := by
  induction signs with
  | nil => exact Option.map_id'.symm
  | cons known others ih =>
    have hcons : fill number values ((known :: others).map .sign ++ rest)
        = (fill number values (others.map .sign ++ rest)).map (.sign known :: ·) := by
      cases values <;> rfl
    rw [hcons, ih]
    cases fill number values rest <;> rfl

/-- A placeholder that is due takes the next value. -/
theorem Terminal.fill_param (style : Placeholder) (number : Nat) (value : Value)
    (values : List Value) (rest : List (Terminal (Option Nat))) :
    fill number (value :: values) (.param (style.slot (number + 1)) :: rest)
      = (fill (number + 1) values rest).map (.param value :: ·) := by
  rw [fill, if_pos (all_slot style (number + 1))]

end Sql

end EntityQuery
