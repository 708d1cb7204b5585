import EntityQuery.Json.Basic
import EntityQuery.Json.Scan
import EntityQuery.Number.Scaled

/-!
# Json/Numeral — numbers as they are written

A numeral is an optional minus sign, a whole part without leading zeros, and optionally a fraction
and an exponent. One without fraction and exponent is an integer while it fits 64 bits, signed below
zero and unsigned above it; every other numeral is a double, and `-0` is one of those.

A double is worked out from a significand of 64 bits. The digits of the whole part fill it first,
those that it has no room for count as places, and then the digits of the fraction fill what is
left. The significand is then scaled in doubles (`Binary64.scaled`), and a numeral that scales to no
finite double has no value.
-/

namespace EntityQuery

/-- A number as it is written. -/
structure Numeral where
  /-- Whether it starts with a minus sign. -/
  negative : Bool
  /-- The digits before the point. -/
  whole : List Char
  /-- The digits after the point. -/
  fraction : Option (List Char)
  /-- Whether the exponent is negative, and its digits. -/
  exponent : Option (Bool × List Char)
  deriving DecidableEq, Repr

namespace Numeral

/-! ## Reading -/

/-- One digit or more. Who passes over a numeral that ends here takes it for malformed. -/
def scanDigits (cs : List Char) : Scan (List Char) :=
  match cs.takeWhile Char.isDigit with
  | [] => if cs.isEmpty then .broken .ended (.before []) else .fail (.faultAt cs)
  | digit :: digits => .read (digit :: digits) (cs.dropWhile Char.isDigit)

/-- The whole part: a zero that no digit follows, or digits that start with another one. -/
def scanWhole (cs : List Char) : Scan (List Char) :=
  match cs with
  | '0' :: rest =>
      if (rest.head?.any Char.isDigit) then .fail (.faultAt rest) else .read ['0'] rest
  | _ => scanDigits cs

/-- The fraction, if a point starts one. -/
def scanFraction (cs : List Char) : Scan (Option (List Char)) :=
  match cs with
  | '.' :: rest => (scanDigits rest).map some
  | _ => .read none cs

/-- The exponent, if a letter starts one. -/
def scanExponent (cs : List Char) : Scan (Option (Bool × List Char)) :=
  match cs with
  | [] => .read none []
  | c :: rest =>
      if c = 'e' ∨ c = 'E' then
        match rest with
        | '-' :: digits => (scanDigits digits).map fun ds => some (true, ds)
        | '+' :: digits => (scanDigits digits).map fun ds => some (false, ds)
        | _ => (scanDigits rest).map fun ds => some (false, ds)
      else .read none cs

/-- A numeral after its sign. -/
def scanUnsigned (negative : Bool) (cs : List Char) : Scan Numeral :=
  (scanWhole cs).bind fun whole rest =>
    (scanFraction rest).bind fun fraction rest =>
      (scanExponent rest).map fun exponent => ⟨negative, whole, fraction, exponent⟩

/-- A numeral. -/
def scan (cs : List Char) : Scan Numeral :=
  match cs with
  | '-' :: rest => scanUnsigned true rest
  | _ => scanUnsigned false cs

/-! ## Value -/

/-- The number that digits spell. -/
def natOf (digits : List Char) : Nat :=
  Nat.ofDigitChars 10 digits 0

/-- The exponent, with its sign. -/
def exponentOf (numeral : Numeral) : Int :=
  match numeral.exponent with
  | none => 0
  | some (true, digits) => -(natOf digits : Int)
  | some (false, digits) => natOf digits

/-- The numeral without its sign, as a decimal. -/
def decimal (numeral : Numeral) : Decimal :=
  let fraction := numeral.fraction.getD []
  ⟨natOf (numeral.whole ++ fraction), numeral.exponentOf - fraction.length⟩

/-- Appends digits to a significand while it fits 64 bits: the significand, and how many digits
are left over. -/
def fill (significand : Nat) : List Char → Nat × Nat
  | [] => (significand, 0)
  | c :: rest =>
      let next := Nat.ofDigitChars 10 [c] significand
      if next < Number.unsignedLimit then fill next rest else (significand, rest.length + 1)

/-- The decimal that is left when the significand is filled. -/
def kept (numeral : Numeral) : Decimal :=
  let fraction := numeral.fraction.getD []
  let whole := fill 0 numeral.whole
  let all := fill whole.1 fraction
  ⟨all.1, numeral.exponentOf + whole.2 - (fraction.length - all.2 : Nat)⟩

/-- The double of the numeral. -/
def real? (numeral : Numeral) : Option Number :=
  (Binary64.ofDecimal? numeral.negative numeral.kept).map Number.real

/-- The number a numeral stands for, if there is one. -/
def value? (numeral : Numeral) : Option Number :=
  if numeral.fraction.isNone ∧ numeral.exponent.isNone then
    let n : Int := natOf numeral.whole
    if numeral.negative then
      if n = 0 ∨ Number.signedLimit < n then numeral.real? else some (.integer (-n))
    else if n < Number.unsignedLimit then some (.integer n)
    else numeral.real?
  else numeral.real?

/-- The least exponent that needs the thirty-second bit. -/
def exponentLimit : Nat := 0x80000000

/-- The exponent digits that follow the one with which an exponent reaches its limit. -/
def surplusDigits (soFar : Nat) : List Char → Nat
  | [] => 0
  | c :: rest =>
      let next := 10 * soFar + (c.toNat - '0'.toNat)
      if exponentLimit ≤ next then rest.length else surplusDigits next rest

/-- Where a numeral without a value is refused: at its end, or at the digit with which its exponent
reaches its limit. -/
def refusal (numeral : Numeral) (rest : List Char) : Fault :=
  let surplus := match numeral.exponent with
    | none => 0
    | some (_, digits) => surplusDigits 0 digits
  ⟨.malformed, byteCount rest + surplus⟩

/-! ## Digits that fit are kept -/

theorem le_ofDigitChars (digits : List Char) (significand : Nat) :
    significand ≤ Nat.ofDigitChars 10 digits significand := by
  induction digits generalizing significand with
  | nil => exact Nat.le_refl _
  | cons c rest ih =>
    rw [Nat.ofDigitChars_cons]
    exact Nat.le_trans (by omega) (ih _)

/-- Digits are all taken while the number that they spell fits. -/
theorem fill_of_lt {digits : List Char} {significand : Nat}
    (h : (Nat.ofDigitChars 10 digits significand : Int) < Number.unsignedLimit) :
    fill significand digits = (Nat.ofDigitChars 10 digits significand, 0) := by
  induction digits generalizing significand with
  | nil => rfl
  | cons c rest ih =>
    have hle := le_ofDigitChars rest (Nat.ofDigitChars 10 [c] significand)
    have hrest : Nat.ofDigitChars 10 rest (Nat.ofDigitChars 10 [c] significand)
        = Nat.ofDigitChars 10 (c :: rest) significand := rfl
    rw [fill, if_pos (by omega), ih (by rw [hrest]; exact h), hrest]

/-! ## The rest is shorter -/

theorem within_scanDigits (cs : List Char) : (scanDigits cs).Within (cs.length - 1) := by
  have h : (cs.takeWhile Char.isDigit).length + (cs.dropWhile Char.isDigit).length = cs.length := by
    rw [← List.length_append, List.takeWhile_append_dropWhile]
  unfold scanDigits
  split
  · split <;> trivial
  · rename_i eq
    rw [eq, List.length_cons] at h
    simp only [Scan.within_read]
    omega

theorem within_scanWhole (cs : List Char) : (scanWhole cs).Within (cs.length - 1) := by
  unfold scanWhole
  split
  · split
    · trivial
    · simp
  · exact within_scanDigits cs

theorem within_scanFraction (cs : List Char) : (scanFraction cs).Within cs.length := by
  unfold scanFraction
  split
  · exact ((within_scanDigits _).mono (by simp only [List.length_cons]; omega)).map _
  · simp

theorem within_scanExponent (cs : List Char) : (scanExponent cs).Within cs.length := by
  unfold scanExponent
  split
  · simp
  · split
    · split <;>
        exact ((within_scanDigits _).mono (by simp only [List.length_cons]; omega)).map _
    · simp

theorem within_scanUnsigned (negative : Bool) (cs : List Char) :
    (scanUnsigned negative cs).Within (cs.length - 1) :=
  (within_scanWhole cs).bind fun _ rest hr =>
    ((within_scanFraction rest).mono hr).bind fun _ rest hr =>
      ((within_scanExponent rest).mono hr).map _

/-- A numeral takes at least one character. -/
theorem within_scan (cs : List Char) : (scan cs).Within (cs.length - 1) := by
  unfold scan
  split
  · exact (within_scanUnsigned _ _).mono (by simp only [List.length_cons]; omega)
  · exact within_scanUnsigned _ _

end Numeral

end EntityQuery
