/-!
# Number/Binary64 — doubles as words, and the double nearest to a decimal

A double is its 64 bits. Without the sign bit the word is a natural number, its *magnitude*, and
magnitudes grow with the values they stand for: magnitude `c` is worth `units c` times the least
positive double, `2 ^ -1074`. Rounding is therefore done in exact natural arithmetic: `nearest`
finds the unit that leaves 53 significant bits and rounds the quotient, a half going to the even
neighbour. A value below the unit of the subnormal doubles keeps that unit, and a carry out of the
53 bits runs into the exponent field by itself.

`nearest_mul_mul` says that the result depends on the quotient alone, and `units_of_small` and
`units_of_large` read a magnitude by its two ranges.
-/

namespace EntityQuery

/-- A double, by its 64 bits. -/
structure Binary64 where
  /-- The word: sign, exponent and fraction from the top bit down. -/
  bits : UInt64
  deriving DecidableEq, Repr

/-- A decimal numeral: a natural number of units of a power of ten. -/
structure Decimal where
  /-- How many units. -/
  digits : Nat
  /-- The unit is ten to this power. -/
  exponent : Int
  deriving DecidableEq, Repr

/-- Rounds a quotient to a natural number, a half to the even neighbour. -/
def roundHalfEven (num den : Nat) : Nat :=
  let twice := 2 * (num % den)
  if twice < den then num / den
  else if den < twice then num / den + 1
  else num / den + num / den % 2

namespace Binary64

/-- The worth of the sign bit in a word, `2 ^ 63`. -/
def signBit : Nat := 0x8000000000000000

/-- The worth of the bit above the fraction, `2 ^ 52`. -/
def leadingBit : Nat := 0x10000000000000

/-- Whether the sign bit is set. -/
def isNegative (x : Binary64) : Bool :=
  decide (signBit ≤ x.bits.toNat)

/-- The word without its sign bit. -/
def magnitude (x : Binary64) : Nat :=
  x.bits.toNat % signBit

/-- The magnitude of the infinities; the finite doubles are those below it. -/
def infiniteMagnitude : Nat := 0x7FF0000000000000

/-- Neither an infinity nor a NaN. -/
def isFinite (x : Binary64) : Bool :=
  decide (x.magnitude < infiniteMagnitude)

/-- A double from its sign and its magnitude. -/
def ofMagnitude (negative : Bool) (magnitude : Nat) : Binary64 :=
  ⟨UInt64.ofNat (if negative then signBit + magnitude else magnitude)⟩

/-- The worth of a magnitude, counted in least positive doubles. -/
def units (magnitude : Nat) : Nat :=
  if magnitude < leadingBit then magnitude
  else (leadingBit + magnitude % leadingBit) * Nat.pow 2 (magnitude / leadingBit - 1)

/-- How many least positive doubles make one. -/
def unitsInOne : Nat := Nat.pow 2 1074

/-- The magnitude nearest to a quotient; `infiniteMagnitude` or more when it is out of range. -/
def nearest (num den : Nat) : Nat :=
  let scaled := num * unitsInOne
  let shift := (scaled / den).log2 - 52
  shift * leadingBit + roundHalfEven scaled (den * Nat.pow 2 shift)

/-- The number of decimal digits. -/
def digitCount (n : Nat) : Nat :=
  (Nat.toDigits 10 n).length

/-- The magnitude nearest to a decimal.

The first two tests bound the powers of ten that are ever computed: a value from `10 ^ 310` on is
out of range and one below `10 ^ -330` is nearest to zero. -/
def nearestDecimal (value : Decimal) : Nat :=
  let top := value.exponent + digitCount value.digits
  if value.digits = 0 ∨ top < -330 then 0
  else if 310 < top then infiniteMagnitude
  else if 0 ≤ value.exponent then nearest (value.digits * Nat.pow 10 value.exponent.toNat) 1
  else nearest value.digits (Nat.pow 10 (-value.exponent).toNat)

/-! ## Rounding depends on the quotient alone -/

theorem roundHalfEven_mul_mul (num den k : Nat) (hk : 0 < k) :
    roundHalfEven (num * k) (den * k) = roundHalfEven num den := by
  have hq : num * k / (den * k) = num / den := Nat.mul_div_mul_right _ _ hk
  have hr : num * k % (den * k) = num % den * k := Nat.mul_mod_mul_right ..
  have hlt : 2 * (num % den * k) < den * k ↔ 2 * (num % den) < den := by
    rw [← Nat.mul_assoc]; exact Nat.mul_lt_mul_right hk
  have hgt : den * k < 2 * (num % den * k) ↔ den < 2 * (num % den) := by
    rw [← Nat.mul_assoc]; exact Nat.mul_lt_mul_right hk
  simp only [roundHalfEven, hq, hr, hlt, hgt]

theorem nearest_mul_mul (num den k : Nat) (hk : 0 < k) :
    nearest (num * k) (den * k) = nearest num den := by
  have hn : num * k * unitsInOne = num * unitsInOne * k := by
    rw [Nat.mul_assoc, Nat.mul_comm k, ← Nat.mul_assoc]
  have hq : num * unitsInOne * k / (den * k) = num * unitsInOne / den :=
    Nat.mul_div_mul_right _ _ hk
  have hd : ∀ s, den * k * Nat.pow 2 s = den * Nat.pow 2 s * k := fun s => by
    rw [Nat.mul_assoc, Nat.mul_comm k, ← Nat.mul_assoc]
  simp only [nearest, hn, hq, hd, roundHalfEven_mul_mul _ _ _ hk]

/-! ## Magnitudes -/

theorem units_of_small {magnitude : Nat} (h : magnitude < leadingBit) :
    units magnitude = magnitude :=
  if_pos h

theorem units_of_large {magnitude : Nat} (h : leadingBit ≤ magnitude) :
    units magnitude =
      (leadingBit + magnitude % leadingBit) * Nat.pow 2 (magnitude / leadingBit - 1) :=
  if_neg (Nat.not_lt.2 h)

theorem toNat_ofNat_of_lt {n : Nat} (h : n < UInt64.size) : (UInt64.ofNat n).toNat = n :=
  Nat.mod_eq_of_lt h

theorem magnitude_ofMagnitude {negative : Bool} {magnitude : Nat} (h : magnitude < signBit) :
    (ofMagnitude negative magnitude).magnitude = magnitude := by
  unfold signBit at h
  cases negative
  · simp only [ofMagnitude, Binary64.magnitude, signBit, Bool.false_eq_true, if_false]
    rw [toNat_ofNat_of_lt (by unfold UInt64.size; omega)]
    omega
  · simp only [ofMagnitude, Binary64.magnitude, signBit, if_true]
    rw [toNat_ofNat_of_lt (by unfold UInt64.size; omega)]
    omega

end Binary64

end EntityQuery
