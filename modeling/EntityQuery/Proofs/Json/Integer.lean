import EntityQuery.Proofs.Json.Numeral
import EntityQuery.Proofs.Json.Printed

/-!
# Proofs/Json/Integer — integers as they are written

    literal := [ - ] ( 0 | nonzero { digit } )          no fraction, no exponent

The characters of a literal are one numeral, as long as what follows does not go on with it
(`IntegerLiteral.scan_append`).  So the values that the grammar derives from them are read off that
numeral alone (`IntegerLiteral.value_iff`): the integer itself while it fits 64 bits, signed below
zero and unsigned above it (`IntegerLiteral.value?_of_fits`), and otherwise a double, if anything
(`IntegerLiteral.value?_of_not_fits`).  Of those that fit, minus zero is a double too.
-/

namespace EntityQuery

open Json.Grammar (Blanks Lexed Value)

/-! ## Tokens that are scalars -/

/-- Numbers start with a minus sign or a digit, and nothing else does. -/
theorem Token.scan_of_number {c : Char} (h : c = '-' ∨ c.isDigit = true) (after : List Char) :
    Token.scan c after = scanNumber (c :: after) := by
  have hother (mark : Char) (hmark : mark ≠ '-' ∧ mark.isDigit = false) : c ≠ mark := by
    rintro rfl
    rcases h with rfl | h
    · exact hmark.1 rfl
    · exact Bool.false_ne_true (hmark.2.symm.trans h)
  unfold Token.scan
  split
  case h_11 => exact if_pos h
  all_goals exact absurd rfl (hother _ (by decide))

/-- A numeral as a tree: its number, or the refusal of what has none. -/
def Numeral.node (numeral : Numeral) (rest : List Char) : Node :=
  match numeral.value? with
  | some number => .num number
  | none => .unreadable (numeral.refusal rest) none

/-- A numeral is one token. -/
theorem Token.scan_of_numeral {c : Char} {after rest : List Char} {numeral : Numeral}
    (hc : c = '-' ∨ c.isDigit = true) (hscan : Numeral.scan (c :: after) = .read numeral rest) :
    scan c after = .read (.scalar (numeral.node rest)) rest := by
  rw [scan_of_number hc, scanNumber, hscan, Scan.bind, Numeral.node]
  rcases numeral.value? with _ | number <;> rfl

/-- A word is the token it stands for. -/
theorem Token.eq_of_scanWord {node : Node} {word after rest : List Char} {lexeme : Lexeme}
    (h : scanWord node word after = .read lexeme rest) : lexeme = .scalar node := by
  fun_induction scanWord node word after with
  | case1 =>
    cases h
    rfl
  | case2 => contradiction
  | case3 _ _ _ ih => exact ih h
  | case4 => contradiction

theorem Token.numeral_of_scanNumber {cs rest : List Char} {lexeme : Lexeme}
    (h : scanNumber cs = .read lexeme rest) :
    ∃ numeral, Numeral.scan cs = .read numeral rest ∧ lexeme = .scalar (numeral.node rest) := by
  rw [scanNumber] at h
  rcases hscan : Numeral.scan cs with ⟨numeral, last⟩ | ⟨fault, skipped⟩ <;> rw [hscan] at h
  · rw [Scan.bind] at h
    refine ⟨numeral, ?_⟩
    rcases hvalue : numeral.value? with _ | number <;> rw [hvalue] at h <;> cases h <;>
      rw [Numeral.node, hvalue] <;> exact ⟨rfl, rfl⟩
  · cases h

/-- What a scalar token is: `null`, a boolean, or a numeral. -/
inductive Token.IsScalar (here rest : List Char) : Node → Prop
  | null : IsScalar here rest .null
  | bool (value : Bool) : IsScalar here rest (.bool value)
  | numeral {numeral : Numeral} (scanned : Numeral.scan here = .read numeral rest) :
      IsScalar here rest (numeral.node rest)

theorem Token.isScalar_of_scan {c : Char} {after rest : List Char} {node : Node}
    (h : scan c after = .read (.scalar node) rest) : IsScalar (c :: after) rest node := by
  unfold Token.scan at h
  split at h
  case h_7 =>
    rcases hscan : Literal.scan after with ⟨text, last⟩ | ⟨fault, skipped⟩ <;> rw [hscan] at h <;>
      cases h
  case h_8 =>
    cases eq_of_scanWord h
    exact .null
  case h_9 | h_10 =>
    cases eq_of_scanWord h
    exact .bool _
  case h_11 =>
    split at h
    · obtain ⟨numeral, hscan, heq⟩ := numeral_of_scanNumber h
      obtain rfl := Lexeme.scalar.inj heq
      exact .numeral hscan
    · contradiction
  all_goals cases h

/-- A scalar token is the one value that can be derived where it starts. -/
theorem Json.Grammar.value_iff_of_scan {c : Char} {after rest last : List Char} {node : Node}
    (h : Token.scan c after = .read (.scalar node) rest) {value : Json} :
    Value (c :: after) value last ↔ Node.ofJson value = node ∧ last = rest := by
  constructor
  · intro hvalue
    cases hvalue with
    | blank isBlank =>
      rw [Token.isBlank_of_scan h] at isBlank
      contradiction
    | text lexed =>
      obtain ⟨_, _, heq, hscan⟩ := lexed
      obtain ⟨rfl, rfl⟩ := List.cons.inj heq
      rw [h] at hscan
      cases hscan
    | scalar lexed taken =>
      obtain ⟨_, _, heq, hscan⟩ := lexed
      obtain ⟨rfl, rfl⟩ := List.cons.inj heq
      rw [h] at hscan
      cases hscan
      exact ⟨taken.symm, rfl⟩
    | emptyArr => cases h
    | arr => cases h
    | emptyObj => cases h
    | obj => cases h
  · rintro ⟨rfl, rfl⟩
    exact .scalar ⟨c, after, rfl, h⟩ rfl

/-! ## Literals -/

/-- An integer as it is written: a minus sign or none, and digits without leading zeros. -/
structure IntegerLiteral where
  /-- Whether it starts with a minus sign. -/
  negative : Bool
  /-- The digits. -/
  digits : List Char
  isDigit : ∀ c ∈ digits, c.isDigit = true
  ne_nil : digits ≠ []
  leading : digits.head? = some '0' → digits = ['0']

namespace IntegerLiteral

variable (literal : IntegerLiteral)

/-- The characters. -/
def chars : List Char :=
  if literal.negative then '-' :: literal.digits else literal.digits

/-- The integer that is meant. -/
def value : Int :=
  if literal.negative then -(Numeral.natOf literal.digits : Int) else Numeral.natOf literal.digits

/-- The literal as a numeral. -/
def numeral : Numeral :=
  ⟨literal.negative, literal.digits, none, none⟩

/-- The literal `-0`, which is a double. -/
def IsMinusZero : Prop :=
  literal.chars = ['-', '0']

/-- The integer needs no sixty-fifth bit: it fits with a sign below zero, and without one above. -/
def Fits : Prop :=
  -Number.signedLimit ≤ literal.value ∧ literal.value < Number.unsignedLimit

instance : Decidable literal.IsMinusZero :=
  inferInstanceAs (Decidable (literal.chars = ['-', '0']))

instance : Decidable literal.Fits :=
  inferInstanceAs (Decidable (-Number.signedLimit ≤ literal.value
    ∧ literal.value < Number.unsignedLimit))

theorem exists_digit : ∃ digit others, literal.digits = digit :: others ∧ digit.isDigit = true := by
  rcases hdigits : literal.digits with _ | ⟨digit, others⟩
  · exact absurd hdigits literal.ne_nil
  · exact ⟨digit, others, rfl, literal.isDigit digit (by simp [hdigits])⟩

theorem chars_numeral : literal.numeral.chars = literal.chars := by
  rw [Numeral.chars, chars]
  cases hnegative : literal.negative <;>
    simp [numeral, hnegative, Numeral.fractionChars, Numeral.exponentChars]

theorem isWritten_numeral : literal.numeral.IsWritten :=
  ⟨⟨literal.ne_nil, literal.isDigit⟩, literal.leading, nofun, nofun⟩

/-- **The characters of a literal are its numeral.** -/
theorem scan_append {rest : List Char} (hrest : Numeral.EndsInteger rest) :
    Numeral.scan (literal.chars ++ rest) = .read literal.numeral rest := by
  rw [← literal.chars_numeral]
  exact Numeral.scan_chars literal.isWritten_numeral hrest

/-- A literal starts as a number does. -/
theorem exists_chars : ∃ c others, literal.chars = c :: others ∧ (c = '-' ∨ c.isDigit = true) := by
  obtain ⟨digit, others, hdigits, hdigit⟩ := literal.exists_digit
  rw [chars]
  split
  · exact ⟨'-', literal.digits, rfl, .inl rfl⟩
  · exact ⟨digit, others, hdigits, .inr hdigit⟩

/-- What the characters of a literal are read as, where `rest` follows: the number of its numeral,
or the refusal if it has none. -/
def node (rest : List Char) : Node :=
  literal.numeral.node rest

/-- **The characters of a literal are one token.** -/
theorem exists_scan {rest : List Char} (hrest : Numeral.EndsInteger rest) :
    ∃ c after, literal.chars ++ rest = c :: after
      ∧ Token.scan c after = .read (.scalar (literal.node rest)) rest := by
  obtain ⟨c, others, hchars, hc⟩ := literal.exists_chars
  have hscan := literal.scan_append hrest
  rw [hchars, List.cons_append] at hscan
  exact ⟨c, others ++ rest, by rw [hchars, List.cons_append], Token.scan_of_numeral hc hscan⟩

/-- **What the grammar derives from a literal is the number of its numeral**, if that has one. -/
theorem value_iff {rest last : List Char} (hrest : Numeral.EndsInteger rest) {value : Json} :
    Value (literal.chars ++ rest) value last
      ↔ ∃ number, literal.numeral.value? = some number ∧ value = .num number ∧ last = rest := by
  obtain ⟨c, after, hchars, hscan⟩ := literal.exists_scan hrest
  rw [hchars, Json.Grammar.value_iff_of_scan hscan, node, Numeral.node]
  rcases literal.numeral.value? with _ | number
  · have hreadable : Node.ofJson value ≠ .unreadable (literal.numeral.refusal rest) none := by
      cases value <;> exact nofun
    exact iff_of_false (fun h => hreadable h.1) nofun
  · constructor
    · rintro ⟨hnode, rfl⟩
      cases value with
      | num other => exact ⟨number, rfl, congrArg Json.num (Node.num.inj hnode), rfl⟩
      | _ => exact nomatch hnode
    · rintro ⟨_, heq, rfl, rfl⟩
      exact ⟨congrArg Node.num (Option.some.inj heq).symm, rfl⟩

/-- Only the digit zero by itself is worth nothing. -/
theorem digits_of_natOf_eq_zero (h : Numeral.natOf literal.digits = 0) :
    literal.digits = ['0'] := by
  obtain ⟨digit, others, hdigits, hdigit⟩ := literal.exists_digit
  refine literal.leading ?_
  have hfirst := Numeral.le_ofDigitChars others (Nat.ofDigitChars 10 [digit] 0)
  have hall : Nat.ofDigitChars 10 others (Nat.ofDigitChars 10 [digit] 0) = 0 := by
    rw [hdigits] at h
    exact h
  rw [hall, Nat.ofDigitChars_cons, Nat.ofDigitChars_nil] at hfirst
  have hleast : '0'.toNat ≤ digit.toNat := by
    rw [Char.isDigit, Bool.and_eq_true, decide_eq_true_iff] at hdigit
    exact hdigit.1
  have hzero : digit = '0' := Char.toNat_inj.mp (by omega)
  rw [hdigits, hzero]
  rfl

/-- The number of a literal, by its sign. -/
theorem value?_numeral : literal.numeral.value?
    = if literal.negative then
        if (Numeral.natOf literal.digits : Int) = 0
            ∨ Number.signedLimit < Numeral.natOf literal.digits then literal.numeral.real?
        else some (.integer (-Numeral.natOf literal.digits))
      else if (Numeral.natOf literal.digits : Int) < Number.unsignedLimit then
        some (.integer (Numeral.natOf literal.digits))
      else literal.numeral.real? :=
  if_pos ⟨rfl, rfl⟩

/-- **An integer that fits is what its literal says.** -/
theorem value?_of_fits (hzero : ¬literal.IsMinusZero) (hfits : literal.Fits) :
    literal.numeral.value? = some (.integer literal.value) := by
  obtain ⟨hlow, hhigh⟩ := hfits
  rw [value?_numeral]
  rw [value] at hlow hhigh ⊢
  cases hnegative : literal.negative with
  | true =>
    have hne : Numeral.natOf literal.digits ≠ 0 := fun hnat => hzero (by
      rw [IsMinusZero, chars, hnegative, if_pos rfl, literal.digits_of_natOf_eq_zero hnat])
    rw [hnegative, if_pos rfl] at hlow
    rw [if_pos rfl, if_pos rfl, if_neg (by omega)]
  | false =>
    rw [hnegative, if_neg Bool.false_ne_true] at hhigh
    rw [if_neg Bool.false_ne_true, if_neg Bool.false_ne_true, if_pos hhigh]

/-- **An integer that does not fit is a double**, if anything. -/
theorem value?_of_not_fits (hfits : ¬literal.Fits) :
    literal.numeral.value? = literal.numeral.real? := by
  rw [value?_numeral]
  rw [Fits, value] at hfits
  cases hnegative : literal.negative with
  | true =>
    rw [hnegative, if_pos rfl] at hfits
    have hlimit : 0 < Number.unsignedLimit := by decide
    rw [if_pos rfl, if_pos (by omega)]
  | false =>
    rw [hnegative, if_neg Bool.false_ne_true] at hfits
    have hlimit : 0 ≤ Number.signedLimit := by decide
    rw [if_neg Bool.false_ne_true, if_neg (by omega)]

/-- **What the grammar derives from a literal that fits is its integer**, and nothing else. -/
theorem value_iff_of_fits (hzero : ¬literal.IsMinusZero) (hfits : literal.Fits)
    {rest last : List Char} (hrest : Numeral.EndsInteger rest) {value : Json} :
    Value (literal.chars ++ rest) value last
      ↔ value = .num (.integer literal.value) ∧ last = rest := by
  rw [literal.value_iff hrest, literal.value?_of_fits hzero hfits]
  simp

/-- A blank does not go on with an integer. -/
theorem endsInteger_of_blanks {gap : List Char} (h : ∀ c ∈ gap, Token.isBlank c = true) :
    Numeral.EndsInteger gap := by
  intro c hc
  have hblank := h c (List.mem_of_mem_head? hc)
  simp only [Token.isBlank, Bool.or_eq_true, beq_iff_eq] at hblank
  rcases hblank with ((rfl | rfl) | rfl) | rfl <;> decide

/-- A document that is a literal, with blanks around. -/
theorem ofText_eq {text : String} {before after : List Char}
    (hbefore : ∀ c ∈ before, Token.isBlank c = true)
    (hafter : ∀ c ∈ after, Token.isBlank c = true)
    (htext : text.toList = before ++ (literal.chars ++ after)) :
    Document.ofText text = ⟨literal.node after, none⟩ := by
  obtain ⟨c, others, hchars, hscan⟩ := literal.exists_scan (endsInteger_of_blanks hafter)
  rw [hchars] at htext
  have hlead : Blanks text.toList (c :: others) := ⟨before, hbefore, htext⟩
  have hgap : Blanks after [] := ⟨after, hafter, (List.append_nil after).symm⟩
  change Assembly.run (.reading .value []) text.toList = _
  rw [Assembly.run_blanks _ hlead, Assembly.run_token _ hscan,
    Assembly.step_value (.inl rfl) (.scalar (literal.node after)) nofun]
  exact Assembly.run_complete _ hgap

end IntegerLiteral

/-! ## Numbers of a text -/

/-- The integer that a numeral stands for needs no sixty-fifth bit. -/
theorem Numeral.fits_of_value? {numeral : Numeral} {n : Int}
    (h : numeral.value? = some (.integer n)) :
    -Number.signedLimit ≤ n ∧ n < Number.unsignedLimit := by
  have hreal : numeral.real? ≠ some (.integer n) := by
    intro hreal
    obtain ⟨double, -, hdouble⟩ := Option.map_eq_some_iff.mp hreal
    contradiction
  have hsigned : 0 ≤ Number.signedLimit := by decide
  have hunsigned : 0 < Number.unsignedLimit := by decide
  rw [Numeral.value?] at h
  dsimp only at h
  split at h
  · split at h
    · split at h
      · exact absurd h hreal
      · next hsmall =>
        obtain rfl := Number.integer.inj (Option.some.inj h)
        omega
    · split at h
      · next hsmall =>
        obtain rfl := Number.integer.inj (Option.some.inj h)
        omega
      · exact absurd h hreal
  · exact absurd h hreal

/-- A scalar token is `null`, a boolean, a number, or nothing that can be read; and integers fit. -/
inductive Token.IsScalarNode : Node → Prop
  | null : IsScalarNode .null
  | bool (value : Bool) : IsScalarNode (.bool value)
  | real (value : Binary64) : IsScalarNode (.num (.real value))
  | integer {value : Int} (hfits : -Number.signedLimit ≤ value ∧ value < Number.unsignedLimit) :
      IsScalarNode (.num (.integer value))
  | unreadable (fault : Fault) (skipped : Option Fault) : IsScalarNode (.unreadable fault skipped)

theorem Token.isScalarNode_of_scan {c : Char} {after rest : List Char} {node : Node}
    (h : Token.scan c after = .read (.scalar node) rest) : IsScalarNode node := by
  cases isScalar_of_scan h with
  | null => exact .null
  | bool value => exact .bool value
  | @numeral numeral =>
    rw [Numeral.node]
    split
    · next number hvalue =>
      cases number with
      | real double => exact .real double
      | integer n => exact .integer (Numeral.fits_of_value? hvalue)
    · exact .unreadable _ _

end EntityQuery
