import EntityQuery.Number.Shortest
import Mathlib.Tactic.Ring

/-!
# Proofs/Number/Nearest — the shortest decimal of a double is nearest to it

A double is nearest to its own worth (`Binary64.nearest_units`), and what is nearest to a decimal
does not depend on where its trailing zeros stand (`Binary64.nearestDecimal_mul_pow`).  So the
decimal that `Binary64.shortest` finds, or the value in full where it finds none, rounds to the
double that it was made for (`Binary64.nearestDecimal_shortest`), with zeros trimmed or not
(`Binary64.nearestDecimal_trim`).
-/

namespace EntityQuery

/-! ## Rounding quotients -/

theorem roundHalfEven_mul_self (n : Nat) {den : Nat} (h : 0 < den) :
    roundHalfEven (n * den) den = n := by
  simp [roundHalfEven, Nat.mul_mod_left, Nat.mul_div_cancel _ h, h]

/-- A quotient is rounded to one of its two neighbours. -/
theorem roundHalfEven_bounds (num den : Nat) :
    num / den ≤ roundHalfEven num den ∧ roundHalfEven num den ≤ num / den + 1 := by
  unfold roundHalfEven
  dsimp only
  have hparity := Nat.mod_lt (num / den) (Nat.zero_lt_two)
  split
  · omega
  · split <;> omega

namespace Binary64

theorem unitsInOne_pos : 0 < unitsInOne := by
  decide +kernel

theorem leadingBit_eq : leadingBit = 2 ^ 52 := by decide

/-- A magnitude is its fraction, with the leading bit or without it, at a shift. -/
theorem exists_shift (magnitude : Nat) : ∃ fraction shift,
    units magnitude = fraction * 2 ^ shift ∧ magnitude = shift * leadingBit + fraction
      ∧ fraction < 2 * leadingBit ∧ (shift = 0 ∨ leadingBit ≤ fraction) := by
  by_cases h : magnitude < leadingBit
  · exact ⟨magnitude, 0, by rw [units_of_small h, pow_zero, mul_one], by omega, by omega, .inl rfl⟩
  · have hlarge := Nat.not_lt.mp h
    have hpos : 0 < leadingBit := by decide
    have hmod := Nat.mod_lt magnitude hpos
    have hdiv := Nat.div_add_mod magnitude leadingBit
    have hexponent : 1 ≤ magnitude / leadingBit := (Nat.one_le_div_iff hpos).mpr hlarge
    refine ⟨leadingBit + magnitude % leadingBit, magnitude / leadingBit - 1, units_of_large hlarge,
      ?_, by omega, .inr (by omega)⟩
    obtain ⟨exponent, hexponent⟩ := Nat.exists_eq_add_of_le' hexponent
    rw [hexponent, Nat.mul_add, Nat.mul_one, Nat.mul_comm] at hdiv
    rw [hexponent, Nat.add_sub_cancel]
    omega

/-- A double is its sign and its magnitude. -/
theorem ofMagnitude_magnitude (x : Binary64) : ofMagnitude x.isNegative x.magnitude = x := by
  obtain ⟨bits⟩ := x
  have hbits := bits.toNat_lt_size
  have hword : (if decide (signBit ≤ bits.toNat) = true then signBit + bits.toNat % signBit
      else bits.toNat % signBit) = bits.toNat := by
    unfold signBit
    unfold UInt64.size at hbits
    split
    · next h =>
      have := of_decide_eq_true h
      omega
    · next h =>
      have := of_decide_eq_false (Bool.not_eq_true _ ▸ h)
      omega
  rw [ofMagnitude, isNegative, magnitude, hword, UInt64.ofNat_toNat]

/-- The shift of a positive fraction with its leading bit is read off its binary logarithm. -/
theorem log2_sub_of_shift {fraction shift : Nat} (hlt : fraction < 2 * leadingBit)
    (hleading : shift = 0 ∨ leadingBit ≤ fraction) :
    (fraction * 2 ^ shift).log2 - 52 = shift := by
  rw [leadingBit_eq] at hlt hleading
  by_cases hzero : fraction = 0
  · subst hzero
    rw [Nat.zero_mul]
    rcases hleading with rfl | h
    · rfl
    · exact absurd h (by decide)
  have hne : fraction * 2 ^ shift ≠ 0 := Nat.mul_ne_zero hzero (Nat.two_pow_pos shift).ne'
  have hupper : (fraction * 2 ^ shift).log2 < 53 + shift := by
    rw [Nat.log2_lt hne, Nat.pow_add]
    exact Nat.mul_lt_mul_of_pos_right hlt (Nat.two_pow_pos shift)
  rcases hleading with rfl | hleading
  · omega
  · have hlower : 52 + shift ≤ (fraction * 2 ^ shift).log2 := by
      rw [Nat.le_log2 hne, Nat.pow_add]
      exact Nat.mul_le_mul_right _ hleading
    omega

/-- **Every magnitude is nearest to its own worth.** -/
theorem nearest_units (magnitude : Nat) : nearest (units magnitude) unitsInOne = magnitude := by
  obtain ⟨fraction, shift, hunits, hmagnitude, hlt, hleading⟩ := exists_shift magnitude
  have hone := unitsInOne_pos
  unfold nearest
  generalize unitsInOne = one at hone ⊢
  simp only [Nat.pow_eq]
  rw [Nat.mul_div_cancel _ hone, hunits, log2_sub_of_shift hlt hleading, hmagnitude]
  rw [Nat.mul_assoc, Nat.mul_comm _ one,
    roundHalfEven_mul_self _ (Nat.mul_pos hone (Nat.two_pow_pos shift))]

/-! ## Decimals -/

theorem digitCount_le_iff {n count : Nat} (h : 0 < count) : digitCount n ≤ count ↔ n < 10 ^ count :=
  Nat.length_toDigits_le_iff (by decide) h

/-- A zero behind the digits counts as one more. -/
theorem digitCount_mul_ten {n : Nat} (h : 0 < n) : digitCount (n * 10) = digitCount n + 1 := by
  have hdigits := Nat.toDigits_append_toDigits (b := 10) (d := 0) (by decide) h (by decide)
  rw [Nat.add_zero, Nat.mul_comm] at hdigits
  rw [digitCount, digitCount, ← hdigits, List.length_append]
  rfl

/-- A zero behind the digits is as good as one more in the exponent. -/
theorem nearestDecimal_mul_ten (digits : Nat) (exponent : Int) :
    nearestDecimal ⟨digits * 10, exponent⟩ = nearestDecimal ⟨digits, exponent + 1⟩ := by
  by_cases hzero : digits = 0
  · subst hzero
    simp [nearestDecimal]
  have htop : exponent + digitCount (digits * 10) = exponent + 1 + digitCount digits := by
    rw [digitCount_mul_ten (Nat.pos_of_ne_zero hzero)]
    omega
  have hvalue : (if 0 ≤ exponent then nearest (digits * 10 * Nat.pow 10 exponent.toNat) 1
        else nearest (digits * 10) (Nat.pow 10 (-exponent).toNat))
      = if 0 ≤ exponent + 1 then nearest (digits * Nat.pow 10 (exponent + 1).toNat) 1
        else nearest digits (Nat.pow 10 (-(exponent + 1)).toNat) := by
    simp only [Nat.pow_eq]
    rcases Int.lt_trichotomy exponent (-1) with h | rfl | h
    · have hsucc : (-exponent).toNat = (-(exponent + 1)).toNat + 1 := by omega
      rw [if_neg (by omega), if_neg (by omega), hsucc, Nat.pow_succ,
        nearest_mul_mul _ _ _ (by decide)]
    · simpa using nearest_mul_mul digits 1 10 (by decide)
    · have hsucc : (exponent + 1).toNat = exponent.toNat + 1 := by omega
      rw [if_pos (by omega), if_pos (by omega), hsucc, Nat.pow_succ, Nat.mul_assoc,
        Nat.mul_comm 10]
  simp only [nearestDecimal, htop, hvalue, hzero, Nat.mul_eq_zero, false_or,
    OfNat.ofNat_ne_zero, or_false]

theorem nearestDecimal_mul_pow (digits zeros : Nat) (exponent : Int) :
    nearestDecimal ⟨digits * 10 ^ zeros, exponent⟩ = nearestDecimal ⟨digits, exponent + zeros⟩ := by
  induction zeros generalizing exponent with
  | zero => rw [Nat.pow_zero, Nat.mul_one, Int.natCast_zero, Int.add_zero]
  | succ zeros ih =>
    rw [Nat.pow_succ, ← Nat.mul_assoc, nearestDecimal_mul_ten, ih]
    congr 2
    omega

/-- Trimming does not change what is nearest. -/
theorem nearestDecimal_trim (fuel : Nat) (decimal : Decimal) :
    nearestDecimal (decimal.trim fuel) = nearestDecimal decimal := by
  induction fuel generalizing decimal with
  | zero => rfl
  | succ fuel ih =>
    rw [Decimal.trim]
    split
    · next h =>
      have hdigits : decimal.digits / 10 * 10 = decimal.digits := by omega
      rw [ih, ← nearestDecimal_mul_ten, hdigits]
    · rfl

/-! ## The shortest decimal -/

theorem units_pos {magnitude : Nat} (h : 0 < magnitude) : 0 < units magnitude := by
  obtain ⟨fraction, shift, hunits, hmagnitude, -, hleading⟩ := exists_shift magnitude
  have hfraction : 0 < fraction := by
    rcases hleading with rfl | hleading
    · omega
    · exact Nat.lt_of_lt_of_le (by decide) hleading
  rw [hunits]
  exact Nat.mul_pos hfraction (Nat.two_pow_pos shift)

/-- A fraction is worth less than the next power of two behind the greatest shift. -/
theorem mul_two_pow_lt {fraction shift top : Nat} (hlt : fraction < 2 ^ 53) (hshift : shift ≤ top) :
    fraction * 2 ^ shift < 2 ^ (53 + top) := by
  rw [Nat.pow_add]
  calc fraction * 2 ^ shift < 2 ^ 53 * 2 ^ shift :=
        Nat.mul_lt_mul_of_pos_right hlt (Nat.two_pow_pos shift)
    _ ≤ 2 ^ 53 * 2 ^ top := Nat.mul_le_mul_left _ (Nat.pow_le_pow_right (by decide) hshift)

/-- The worth of a finite double is less than `2 ^ 1024`. -/
theorem units_lt {magnitude : Nat} (h : magnitude < infiniteMagnitude) :
    units magnitude < 2 ^ (53 + 2045) := by
  obtain ⟨fraction, shift, hunits, hmagnitude, hlt, hleading⟩ := exists_shift magnitude
  have hshift : shift ≤ 2045 := by
    unfold infiniteMagnitude at h
    unfold leadingBit at hmagnitude hleading
    omega
  rw [hunits]
  refine mul_two_pow_lt ?_ hshift
  unfold leadingBit at hlt
  omega

/-- The value in full rounds to the magnitude. -/
theorem nearestDecimal_exactDecimal {magnitude : Nat} (hpos : 0 < magnitude)
    (hfinite : magnitude < infiniteMagnitude) :
    nearestDecimal (exactDecimal magnitude) = magnitude := by
  have hunits := units_pos hpos
  have hlt := units_lt hfinite
  have hten : Nat.pow 10 (-(-1074 : Int)).toNat = unitsInOne * Nat.pow 5 1074 := by
    decide +kernel
  have hlow : 10 ^ 743 ≤ Nat.pow 5 1074 := by decide +kernel
  have hhigh : 2 ^ (53 + 2045) * Nat.pow 5 1074 < 10 ^ 1384 := by decide +kernel
  have hnearest := nearest_units magnitude
  rw [exactDecimal]
  generalize Nat.pow 5 1074 = five at hten hlow hhigh ⊢
  have hfive : 0 < five := Nat.lt_of_lt_of_le (Nat.pow_pos (by decide)) hlow
  have hdigits : units magnitude * five ≠ 0 := (Nat.mul_pos hunits hfive).ne'
  have hleast : ¬digitCount (units magnitude * five) ≤ 743 := by
    rw [digitCount_le_iff (by decide), Nat.not_lt]
    exact hlow.trans (Nat.le_mul_of_pos_left five hunits)
  have hgreatest : digitCount (units magnitude * five) ≤ 1384 := by
    rw [digitCount_le_iff (by decide)]
    exact (Nat.mul_lt_mul_of_pos_right hlt hfive).trans hhigh
  have htest : ¬((-1074 : Int) + digitCount (units magnitude * five) < -330) := by omega
  have hrange : ¬310 < (-1074 : Int) + digitCount (units magnitude * five) := by omega
  simp only [nearestDecimal, hdigits, htest, hrange, or_self, if_false]
  rw [if_neg (by decide), hten, nearest_mul_mul _ _ _ hfive]
  exact hnearest

/-- **The shortest decimal of a finite double is nearest to it.** -/
theorem nearestDecimal_shortest {magnitude : Nat} (hpos : 0 < magnitude)
    (hfinite : magnitude < infiniteMagnitude) :
    nearestDecimal (shortest magnitude) = magnitude := by
  rw [shortest]
  cases hfound : (List.range 17).findSome? fun count => candidate? magnitude (count + 1) with
  | none => exact nearestDecimal_exactDecimal hpos hfinite
  | some decimal =>
    obtain ⟨count, -, hcandidate⟩ := List.exists_of_findSome?_eq_some hfound
    exact nearestDecimal_candidate? hcandidate

end Binary64

end EntityQuery
