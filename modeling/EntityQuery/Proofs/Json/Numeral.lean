import EntityQuery.Json.Numeral
import Mathlib.Algebra.Ring.Nat
import Mathlib.Data.List.Induction

/-!
# Proofs/Json/Numeral — numerals are read as they are written

    numeral := [ - ] ( 0 | nonzero { digit } ) [ . digit { digit } ] [ e sign digit { digit } ]

`Numeral.chars` writes a numeral, and its characters are read as that numeral, as long as what
follows does not go on with it (`Numeral.scan_chars`).  Each part stops where the next one begins.
-/

namespace EntityQuery

namespace Numeral

/-! ## Characters -/

/-- One digit or more. -/
def IsDigits (digits : List Char) : Prop :=
  digits ≠ [] ∧ ∀ c ∈ digits, c.isDigit = true

/-- Digits spell a number that is less than the next power of ten. -/
theorem ofDigitChars_lt {digits : List Char} (h : ∀ c ∈ digits, c.isDigit = true) :
    Nat.ofDigitChars 10 digits 0 < 10 ^ digits.length := by
  induction digits using List.reverseRecOn with
  | nil => exact Nat.zero_lt_one
  | append_singleton digits c ih =>
    have hrest := ih fun d hd => h d (List.mem_append_left _ hd)
    have hc := Char.isDigit_iff_toNat.mp (h c (List.mem_append_right _ List.mem_cons_self))
    rw [Nat.ofDigitChars_append, Nat.ofDigitChars_cons, Nat.ofDigitChars_nil, List.length_append,
      List.length_singleton, Nat.pow_succ]
    change '0'.toNat ≤ c.toNat ∧ c.toNat ≤ '0'.toNat + 9 at hc
    omega

/-- The fraction as it is written. -/
def fractionChars : Option (List Char) → List Char
  | none => []
  | some digits => '.' :: digits

/-- The exponent as it is written, always with a sign. -/
def exponentChars : Option (Bool × List Char) → List Char
  | none => []
  | some (negative, digits) => 'e' :: (if negative then '-' else '+') :: digits

/-- The characters of a numeral. -/
def chars (numeral : Numeral) : List Char :=
  (if numeral.negative then ['-'] else [])
    ++ (numeral.whole ++ (fractionChars numeral.fraction ++ exponentChars numeral.exponent))

/-- A numeral can be written: it has digits wherever it has a part, and no zero in front. -/
structure IsWritten (numeral : Numeral) : Prop where
  whole : IsDigits numeral.whole
  leading : numeral.whole.head? = some '0' → numeral.whole = ['0']
  fraction : ∀ digits ∈ numeral.fraction, IsDigits digits
  exponent : ∀ exponent ∈ numeral.exponent, IsDigits exponent.2

/-! ## Reading -/

/-- What follows does not go on with an integer: no digit, no point and no exponent. -/
def EndsInteger (rest : List Char) : Prop :=
  ∀ c ∈ rest.head?, c.isDigit = false ∧ c ∉ ['.', 'e', 'E']

theorem endsInteger_cons {c : Char} {rest : List Char} :
    EndsInteger (c :: rest) ↔ c.isDigit = false ∧ c ∉ ['.', 'e', 'E'] :=
  ⟨fun h => h c rfl, fun h _ hc => Option.some.inj hc ▸ h⟩

/-- Digits are taken up to what is no digit. -/
theorem scanDigits_eq {digits rest : List Char} (h : IsDigits digits)
    (hrest : ∀ c ∈ rest.head?, c.isDigit = false) :
    scanDigits (digits ++ rest) = .read digits rest := by
  have htake : rest.takeWhile Char.isDigit = [] := by
    cases rest with
    | nil => rfl
    | cons c rest => rw [List.takeWhile_cons_of_neg (by simp [hrest c rfl])]
  have hdrop : rest.dropWhile Char.isDigit = rest := by
    cases rest with
    | nil => rfl
    | cons c rest => rw [List.dropWhile_cons_of_neg (by simp [hrest c rfl])]
  rw [scanDigits, List.takeWhile_append_of_pos h.2, htake, List.append_nil,
    List.dropWhile_append_of_pos h.2, hdrop]
  cases digits with
  | nil => exact absurd rfl h.1
  | cons digit digits => rfl

theorem scanWhole_eq {digits rest : List Char} (h : IsDigits digits)
    (hleading : digits.head? = some '0' → digits = ['0'])
    (hrest : ∀ c ∈ rest.head?, c.isDigit = false) :
    scanWhole (digits ++ rest) = .read digits rest := by
  have hscan := scanDigits_eq h hrest
  rcases digits with _ | ⟨digit, digits⟩
  · exact absurd rfl h.1
  by_cases hzero : digit = '0'
  · subst hzero
    obtain ⟨-, rfl⟩ := List.cons.inj (hleading rfl)
    have hstop : ¬rest.head?.any Char.isDigit = true := by
      cases rest with
      | nil => exact Bool.false_ne_true
      | cons c rest => simp [hrest c rfl]
    exact if_neg hstop
  · unfold scanWhole
    split
    · next heq => exact absurd (List.cons.inj heq).1 hzero
    · exact hscan

variable {rest : List Char}

theorem scanExponent_of_ends (hrest : EndsInteger rest) : scanExponent rest = .read none rest := by
  cases rest with
  | nil => rfl
  | cons c rest =>
    have hletter : ¬(c = 'e' ∨ c = 'E') := fun heq => (hrest c rfl).2 (by
      rcases heq with rfl | rfl <;> decide)
    unfold scanExponent
    exact if_neg hletter

/-- The exponent is taken, and what follows does not go on with it. -/
theorem scanExponent_eq {exponent : Option (Bool × List Char)}
    (h : ∀ parts ∈ exponent, IsDigits parts.2) (hrest : EndsInteger rest) :
    scanExponent (exponentChars exponent ++ rest) = .read exponent rest := by
  rcases exponent with _ | ⟨negative, digits⟩
  · exact scanExponent_of_ends hrest
  · have hscan := scanDigits_eq (h _ rfl) fun c hc => (hrest c hc).1
    cases negative with
    | true =>
      change (scanDigits (digits ++ rest)).map _ = _
      rw [hscan]
      rfl
    | false =>
      change (scanDigits (digits ++ rest)).map _ = _
      rw [hscan]
      rfl

/-- What follows a fraction does not go on with its digits. -/
theorem exponentChars_stops (exponent : Option (Bool × List Char)) (hrest : EndsInteger rest) :
    ∀ c ∈ (exponentChars exponent ++ rest).head?, c.isDigit = false ∧ c ≠ '.' := by
  rcases exponent with _ | ⟨negative, digits⟩
  · intro c hc
    exact ⟨(hrest c hc).1, fun heq => (hrest c hc).2 (by simp [heq])⟩
  · rintro c hc
    obtain rfl := Option.some.inj hc
    decide

theorem scanFraction_eq {fraction : Option (List Char)} {after : List Char}
    (h : ∀ digits ∈ fraction, IsDigits digits)
    (hafter : ∀ c ∈ after.head?, c.isDigit = false ∧ c ≠ '.') :
    scanFraction (fractionChars fraction ++ after) = .read fraction after := by
  rcases fraction with _ | digits
  · unfold scanFraction
    split
    · next heq =>
      change after = _ at heq
      exact absurd rfl (hafter '.' (by rw [heq]; rfl)).2
    · rfl
  · change (scanDigits (digits ++ after)).map _ = _
    rw [scanDigits_eq (h _ rfl) fun c hc => (hafter c hc).1]
    rfl

/-- **The characters of a numeral are the numeral**, as long as what follows does not go on. -/
theorem scan_chars {numeral : Numeral} (h : numeral.IsWritten) (hrest : EndsInteger rest) :
    scan (numeral.chars ++ rest) = .read numeral rest := by
  obtain ⟨negative, whole, fraction, exponent⟩ := numeral
  obtain ⟨hwhole, hleading, hfraction, hexponent⟩ := h
  dsimp only at hwhole hleading hfraction hexponent
  have hexponentStops := exponentChars_stops exponent hrest
  have hfractionStops : ∀ c ∈ (fractionChars fraction ++ (exponentChars exponent ++ rest)).head?,
      c.isDigit = false := by
    rcases fraction with _ | digits
    · exact fun c hc => (hexponentStops c hc).1
    · intro c hc
      obtain rfl := Option.some.inj hc
      rfl
  have hunsigned : scanUnsigned negative
      (whole ++ (fractionChars fraction ++ (exponentChars exponent ++ rest)))
        = .read ⟨negative, whole, fraction, exponent⟩ rest := by
    rw [scanUnsigned, scanWhole_eq hwhole hleading hfractionStops, Scan.bind,
      scanFraction_eq hfraction hexponentStops, Scan.bind, scanExponent_eq hexponent hrest]
    rfl
  have hchars : chars ⟨negative, whole, fraction, exponent⟩ ++ rest
      = (if negative then ['-'] else [])
        ++ (whole ++ (fractionChars fraction ++ (exponentChars exponent ++ rest))) := by
    simp [chars]
  rw [hchars]
  cases negative with
  | true => exact hunsigned
  | false =>
    rw [if_neg Bool.false_ne_true, List.nil_append]
    unfold scan
    split
    · next heq =>
      -- a minus sign is no digit
      rcases whole with _ | ⟨digit, digits⟩
      · exact absurd rfl hwhole.1
      · have hdigit := hwhole.2 digit List.mem_cons_self
        rw [(List.cons.inj heq).1] at hdigit
        contradiction
    · exact hunsigned

end Numeral

end EntityQuery
