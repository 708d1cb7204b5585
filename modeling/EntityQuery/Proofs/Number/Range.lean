import EntityQuery.Proofs.Number.Written
import Mathlib.Data.Nat.Log

/-!
# Proofs/Number/Range — the text of a finite double is in range

A decimal that is worked out in doubles may miss the nearest one, and some that are nearest to the
last double are worked out as infinite.  No text of a finite double is (`IsTextOf.exists_value?`).

    digits · 10 ^ power     nearest to m, before the last two
      power < 0     divided by powers that are worth one at least: no more than the digits
      power ≥ 0     no more digits than m + 1 has room for: a table of the last powers

Rounding keeps the order (`Binary64.nearest_mono`), so each row needs one evaluation, at the most
digits that may occur.  The digits that a text has no room for in 64 bits are left out, which makes
no number greater (`Numeral.kept_le`).  Of the last two doubles the texts themselves are read.
-/

namespace EntityQuery

/-! ## Rounding keeps the order -/

section

variable {a b c d : Nat} (hb : 0 < b) (hd : 0 < d) (h : a * d ≤ c * b)

include hb hd h

/-- Of two quotients, the greater one has no smaller whole part. -/
theorem div_le_div_of_cross : a / b ≤ c / d := by
  rw [Nat.le_div_iff_mul_le hd]
  refine Nat.le_of_mul_le_mul_right ?_ hb
  calc a / b * d * b = a / b * b * d := Nat.mul_right_comm ..
    _ ≤ a * d := Nat.mul_le_mul_right d (Nat.div_mul_le_self a b)
    _ ≤ c * b := h

/-- A greater quotient is not rounded to less. -/
theorem roundHalfEven_mono : roundHalfEven a b ≤ roundHalfEven c d := by
  rcases Nat.lt_or_eq_of_le (div_le_div_of_cross hb hd h) with hlt | heq
  · exact (roundHalfEven_bounds a b).2.trans (hlt.trans_le (roundHalfEven_bounds c d).1)
  · -- over the same whole part, the remainders decide
    have htwice : 2 * (a % b) * d ≤ 2 * (c % d) * b := by
      have ha := Nat.div_add_mod a b
      have hc := Nat.div_add_mod c d
      have hcommon : b * (a / b) * d = d * (a / b) * b := by ring
      rw [← heq] at hc
      rw [← ha, ← hc, Nat.add_mul, Nat.add_mul, hcommon] at h
      simpa only [Nat.mul_assoc, Nat.mul_add_mod, Nat.mod_mod]
        using Nat.mul_le_mul_left 2 (Nat.le_of_add_le_add_left h)
    have hbelow (hlt : 2 * (c % d) < d) : 2 * (a % b) < b := by
      refine Nat.lt_of_mul_lt_mul_right (a := d) (htwice.trans_lt ?_)
      rw [Nat.mul_comm b]
      exact Nat.mul_lt_mul_of_pos_right hlt hb
    have hhalf (hle : 2 * (c % d) ≤ d) : 2 * (a % b) ≤ b := by
      refine Nat.le_of_mul_le_mul_right (htwice.trans ?_) hd
      rw [Nat.mul_comm b]
      exact Nat.mul_le_mul_right b hle
    have hbounds := roundHalfEven_bounds a b
    rw [heq] at hbounds
    rcases Nat.lt_trichotomy (2 * (c % d)) d with hlow | htie | hhigh
    · rw [roundHalfEven, roundHalfEven, if_pos (hbelow hlow), if_pos hlow, heq]
    · have hhalf := hhalf htie.le
      rw [roundHalfEven, roundHalfEven, heq, if_neg htie.not_lt, if_neg htie.not_gt]
      split
      · exact Nat.le_add_right _ _
      · rw [if_neg hhalf.not_gt]
    · rw [roundHalfEven.eq_def c, if_neg hhigh.not_gt, if_pos hhigh]
      exact hbounds.2

end

namespace Binary64

/-- At the shift that is taken, the fraction has no bit above the leading one. -/
theorem roundHalfEven_le_of_shift {num den shift : Nat} (hshift : (num / den).log2 - 52 = shift) :
    roundHalfEven num (den * 2 ^ shift) ≤ 2 * leadingBit := by
  have hlt : num / den < 2 ^ 53 * 2 ^ shift := by
    rw [← Nat.pow_add]
    exact Nat.lt_log2_self.trans_le (Nat.pow_le_pow_right (by decide) (by omega))
  have hfraction : num / (den * 2 ^ shift) < 2 ^ 53 := by
    rw [← Nat.div_div_eq_div_mul, Nat.div_lt_iff_lt_mul (Nat.two_pow_pos shift)]
    exact hlt
  exact (roundHalfEven_bounds _ _).2.trans hfraction

/-- A shift is only taken where the leading bit is set. -/
theorem le_roundHalfEven_of_shift {num den shift : Nat} (hshift : (num / den).log2 - 52 = shift)
    (hpos : 0 < shift) : leadingBit ≤ roundHalfEven num (den * 2 ^ shift) := by
  have hne : num / den ≠ 0 := by
    intro hzero
    rw [hzero, Nat.log2_zero] at hshift
    omega
  have hle : 2 ^ 52 * 2 ^ shift ≤ num / den := by
    rw [← Nat.pow_add]
    exact (Nat.pow_le_pow_right (by decide) (by omega)).trans (Nat.log2_self_le hne)
  have hfraction : 2 ^ 52 ≤ num / (den * 2 ^ shift) := by
    rw [← Nat.div_div_eq_div_mul, Nat.le_div_iff_mul_le (Nat.two_pow_pos shift)]
    exact hle
  exact hfraction.trans (roundHalfEven_bounds _ _).1

/-- **What is nearest to a greater quotient is no smaller.** -/
theorem nearest_mono {a b c d : Nat} (hb : 0 < b) (hd : 0 < d) (h : a * d ≤ c * b) :
    nearest a b ≤ nearest c d := by
  have hscaled : a * unitsInOne * d ≤ c * unitsInOne * b := by
    rw [Nat.mul_right_comm, Nat.mul_right_comm c]
    exact Nat.mul_le_mul_right _ h
  unfold nearest
  generalize a * unitsInOne = first at hscaled ⊢
  generalize c * unitsInOne = second at hscaled ⊢
  simp only [Nat.pow_eq]
  have hlog : (first / b).log2 ≤ (second / d).log2 := by
    rw [Nat.log2_eq_log_two, Nat.log2_eq_log_two]
    exact Nat.log_mono_right (div_le_div_of_cross hb hd hscaled)
  generalize hlow : (first / b).log2 - 52 = low
  generalize hhigh : (second / d).log2 - 52 = high
  rcases Nat.lt_or_eq_of_le (show low ≤ high by omega) with hlt | rfl
  · -- the leading bit of the greater one is worth as much as all bits of the other
    have hfirst := roundHalfEven_le_of_shift hlow
    have hsecond := le_roundHalfEven_of_shift hhigh (by omega)
    have hshift : (low + 1) * leadingBit ≤ high * leadingBit := Nat.mul_le_mul_right _ hlt
    rw [Nat.succ_mul] at hshift
    omega
  · refine Nat.add_le_add_left (roundHalfEven_mono ?_ ?_ ?_) _
    · exact Nat.mul_pos hb (Nat.two_pow_pos low)
    · exact Nat.mul_pos hd (Nat.two_pow_pos low)
    · rw [← Nat.mul_assoc, ← Nat.mul_assoc]
      exact Nat.mul_le_mul_right _ hscaled

theorem units_le_of_le {magnitude other : Nat} (h : magnitude ≤ other) :
    units magnitude ≤ units other := by
  refine Nat.le_of_not_lt fun hlt => ?_
  have hle := nearest_mono unitsInOne_pos unitsInOne_pos (Nat.mul_le_mul_right unitsInOne hlt.le)
  rw [nearest_units, nearest_units] at hle
  obtain rfl := Nat.le_antisymm h hle
  exact Nat.lt_irrefl _ hlt

/-- A quotient is at most the worth of any magnitude above the nearest one. -/
theorem le_units_of_nearest_lt {num den magnitude : Nat} (hden : 0 < den)
    (h : nearest num den < magnitude) : num * unitsInOne ≤ units magnitude * den := by
  refine Nat.le_of_not_lt fun hlt => ?_
  have hle := nearest_mono unitsInOne_pos hden hlt.le
  rw [nearest_units] at hle
  omega

/-! ## Worked out in doubles -/

/-- A power of ten that is divided by is worth one at least. -/
theorem unitsInOne_le_powerOfTen (power : Nat) : unitsInOne ≤ units (powerOfTen power) := by
  have hone : units (nearestNat 1) = unitsInOne := by decide +kernel
  rw [← hone]
  refine units_le_of_le (nearest_mono Nat.one_pos Nat.one_pos (Nat.mul_le_mul_right 1 ?_))
  exact Nat.pow_pos (by decide)

theorem nearestQuotient_le (magnitude power : Nat) :
    nearestQuotient magnitude (powerOfTen power) ≤ magnitude := by
  have hle := unitsInOne_le_powerOfTen power
  have hpos := unitsInOne_pos.trans_le hle
  conv_rhs => rw [← nearest_units magnitude]
  exact nearest_mono hpos unitsInOne_pos (Nat.mul_le_mul_left _ hle)

/-- A division by a power of ten makes no number greater. -/
theorem scaledDown_le (magnitude power : Nat) : scaledDown magnitude power ≤ magnitude := by
  fun_induction scaledDown magnitude power with
  | case1 => exact Nat.zero_le _
  | case2 _ _ _ _ ih => exact ih.trans (nearestQuotient_le _ _)
  | case3 => exact nearestQuotient_le _ _

theorem nearestNat_mono {n m : Nat} (h : n ≤ m) : nearestNat n ≤ nearestNat m :=
  nearest_mono Nat.one_pos Nat.one_pos (Nat.mul_le_mul_right 1 h)

/-- A multiplication by a power of ten keeps the order, as long as the power is one. -/
theorem scaledUp_mono {magnitude other power top : Nat} (h : magnitude ≤ other)
    (hpower : power ≤ top) (htop : top ≤ greatestPower) :
    scaledUp magnitude power ≤ scaledUp other top := by
  rcases Nat.eq_zero_or_pos magnitude with rfl | hpos
  · rw [scaledUp_zero]
    exact Nat.zero_le _
  rw [scaledUp, scaledUp, if_neg hpos.ne', if_neg (hpos.trans_le h).ne', if_neg htop.not_gt,
    if_neg (hpower.trans htop).not_gt]
  have hone := Nat.mul_pos unitsInOne_pos unitsInOne_pos
  have hten : powerOfTen power ≤ powerOfTen top :=
    nearestNat_mono (Nat.pow_le_pow_right (by decide) hpower)
  have hunits := Nat.mul_le_mul (units_le_of_le h) (units_le_of_le hten)
  exact nearest_mono hone hone (Nat.mul_le_mul_right _ hunits)

/-- The greatest number of 64 bits. -/
def greatestSignificand : Nat := 0xFFFFFFFFFFFFFFFF

/-- How many units of a power of ten the last finite double but one has room for, in 64 bits. -/
def greatestDigits (power : Nat) : Nat :=
  min (units (infiniteMagnitude - 2) / unitsInOne / 10 ^ power) greatestSignificand

/-- So many units are never out of range. -/
theorem scaledUp_greatestDigits {power : Nat} (h : power ≤ greatestPower) :
    scaledUp (nearestNat (greatestDigits power)) power < infiniteMagnitude := by
  have hlast : ∀ extra < 21, scaledUp (nearestNat (greatestDigits (288 + extra))) (288 + extra)
      < infiniteMagnitude := by decide +kernel
  unfold greatestPower at h
  rcases Nat.le_total 288 power with hlarge | hsmall
  · obtain ⟨extra, rfl⟩ := Nat.exists_eq_add_of_le hlarge
    exact hlast extra (by omega)
  · -- up to this power the significand is what limits the digits
    have hall : scaledUp (nearestNat greatestSignificand) 288 < infiniteMagnitude := by
      decide +kernel
    have hdigits : greatestDigits power ≤ greatestSignificand := Nat.min_le_right _ _
    exact (scaledUp_mono (nearestNat_mono hdigits) hsmall (by decide)).trans_lt hall

/-- Fewer units of the same power of ten are not nearest to more. -/
theorem nearestDecimal_le {digits other : Nat} {exponent : Int} (h : digits ≤ other)
    (hfinite : nearestDecimal ⟨other, exponent⟩ < infiniteMagnitude) :
    nearestDecimal ⟨digits, exponent⟩ ≤ nearestDecimal ⟨other, exponent⟩ := by
  have hcount : digitCount digits ≤ digitCount other := by
    have hpos : 0 < digitCount other := Nat.length_toDigits_pos
    rw [digitCount_le_iff hpos]
    exact h.trans_lt ((digitCount_le_iff hpos).mp (Nat.le_refl _))
  unfold nearestDecimal at hfinite ⊢
  dsimp only at hfinite ⊢
  by_cases hnone : digits = 0 ∨ exponent + digitCount digits < -330
  · rw [if_pos hnone]
    exact Nat.zero_le _
  have hother : ¬(other = 0 ∨ exponent + digitCount other < -330) := by omega
  have hrange : ¬310 < exponent + digitCount other := by
    intro hout
    rw [if_neg hother, if_pos hout] at hfinite
    exact Nat.lt_irrefl _ hfinite
  have hbelow : ¬310 < exponent + digitCount digits := by omega
  rw [if_neg hnone, if_neg hother, if_neg hrange, if_neg hbelow]
  split
  · exact nearest_mono Nat.one_pos Nat.one_pos (Nat.mul_le_mul_right 1 (Nat.mul_le_mul_right _ h))
  · have hten : 0 < Nat.pow 10 (-exponent).toNat := Nat.pow_pos (by decide)
    exact nearest_mono hten hten (Nat.mul_le_mul_right _ h)

/-- **A decimal is worked out in range** if its digits fit 64 bits and it is nearest to a double
before the last two. -/
theorem scaled_lt {value : Decimal} (hdigits : value.digits ≤ greatestSignificand)
    (h : nearestDecimal value < infiniteMagnitude - 2) : scaled value < infiniteMagnitude := by
  obtain ⟨digits, exponent⟩ := value
  dsimp only at hdigits
  rcases Nat.eq_zero_or_pos digits with rfl | hpos
  · rw [scaled_zero]
    decide
  rw [scaled]
  dsimp only
  split
  · next hexponent =>
    obtain ⟨power, rfl⟩ := Int.eq_ofNat_of_zero_le hexponent
    rw [Int.toNat_natCast]
    have hnearest : nearest (digits * 10 ^ power) 1 < infiniteMagnitude - 2 := by
      rw [nearestDecimal] at h
      dsimp only at h
      rw [if_neg (by omega)] at h
      split at h
      · contradiction
      · exact h
    have hle := le_units_of_nearest_lt Nat.one_pos hnearest
    have hroom : digits ≤ units (infiniteMagnitude - 2) / unitsInOne / 10 ^ power := by
      rw [Nat.le_div_iff_mul_le (Nat.pow_pos (by decide)), Nat.le_div_iff_mul_le unitsInOne_pos,
        ← Nat.mul_one (units _)]
      exact hle
    have hpower : power ≤ greatestPower := by
      have hlimit : units (infiniteMagnitude - 2) / unitsInOne < 10 ^ (greatestPower + 1) := by
        decide +kernel
      refine Nat.le_of_not_lt fun hlt => ?_
      rw [Nat.div_eq_of_lt (hlimit.trans_le (Nat.pow_le_pow_right (by decide) hlt))] at hroom
      omega
    have hgreatest : digits ≤ greatestDigits power := Nat.le_min.mpr ⟨hroom, hdigits⟩
    exact (scaledUp_mono (nearestNat_mono hgreatest) (Nat.le_refl _) hpower).trans_lt
      (scaledUp_greatestDigits hpower)
  · refine (scaledDown_le _ _).trans_lt ((nearestNat_mono hdigits).trans_lt ?_)
    decide +kernel

end Binary64

/-! ## Texts -/

namespace Numeral

theorem le_ofDigitChars_zeros (digits : List Char) (significand : Nat) :
    significand * 10 ^ digits.length ≤ Nat.ofDigitChars 10 digits significand := by
  rw [Nat.ofDigitChars_eq_ofDigitChars_zero, Nat.mul_comm]
  exact Nat.le_add_right _ _

/-- A significand takes digits from the front as long as it fits, and counts the others. -/
theorem exists_fill (digits : List Char) {significand : Nat}
    (h : significand ≤ Binary64.greatestSignificand) : ∃ taken left, digits = taken ++ left
      ∧ fill significand digits = (Nat.ofDigitChars 10 taken significand, left.length)
      ∧ Nat.ofDigitChars 10 taken significand ≤ Binary64.greatestSignificand := by
  induction digits generalizing significand with
  | nil => exact ⟨[], [], rfl, rfl, h⟩
  | cons c rest ih =>
    rw [fill]
    split
    · next hroom =>
      have hnext : Nat.ofDigitChars 10 [c] significand ≤ Binary64.greatestSignificand := by
        unfold Number.unsignedLimit at hroom
        unfold Binary64.greatestSignificand
        omega
      obtain ⟨taken, left, hrest, hfill, hfits⟩ := ih hnext
      exact ⟨c :: taken, left, by rw [hrest, List.cons_append], hfill, hfits⟩
    · exact ⟨[], c :: rest, rfl, rfl, h⟩

/-- **What is kept of a numeral is no more than what it writes**, if its whole part is short. -/
theorem kept_le {numeral : Numeral} (h : numeral.IsWritten) (hlength : numeral.whole.length ≤ 16) :
    numeral.kept.digits ≤ Binary64.greatestSignificand
      ∧ ∃ zeros : Nat, numeral.kept.digits * 10 ^ zeros ≤ numeral.decimal.digits
        ∧ numeral.kept.exponent = numeral.decimal.exponent + zeros := by
  have hwhole : Nat.ofDigitChars 10 numeral.whole 0 < 10 ^ 16 :=
    (ofDigitChars_lt h.whole.2).trans_le (Nat.pow_le_pow_right (by decide) hlength)
  have hfill : fill 0 numeral.whole = (Nat.ofDigitChars 10 numeral.whole 0, 0) := by
    refine fill_of_lt ?_
    unfold Number.unsignedLimit
    omega
  have hstart : Nat.ofDigitChars 10 numeral.whole 0 ≤ Binary64.greatestSignificand := by
    unfold Binary64.greatestSignificand
    omega
  obtain ⟨taken, left, hfraction, hrest, hfits⟩ :=
    exists_fill (numeral.fraction.getD []) hstart
  have hdigits : numeral.kept.digits = Nat.ofDigitChars 10 taken
      (Nat.ofDigitChars 10 numeral.whole 0) := by
    simp only [kept, hfill, hrest]
  refine ⟨hdigits ▸ hfits, left.length, ?_, ?_⟩
  · rw [hdigits, decimal, hfraction, natOf, Nat.ofDigitChars_append, Nat.ofDigitChars_append]
    exact le_ofDigitChars_zeros left _
  · simp only [kept, decimal, hfill, hrest]
    rw [hfraction, List.length_append]
    omega

end Numeral

namespace Number

/-- Whether characters begin with a numeral that stands for a double. -/
def startsReal (cs : List Char) : Bool :=
  match Numeral.scan cs with
  | .read numeral _ => numeral.real?.isSome
  | .broken _ _ => false

/-- The last two doubles of either sign have texts in range.  Longer decimals that are nearest to
them need not be, so the texts themselves are looked at. -/
theorem startsReal_last {x : Binary64} {last : Nat} (hlast : last < 2)
    (hx : x.magnitude = Binary64.infiniteMagnitude - 2 + last) :
    startsReal (real x).text.toList = true := by
  have hshortest : ∀ last < 2, Binary64.shortest (Binary64.infiniteMagnitude - 2 + last)
      = ⟨17976931348623155 + 2 * last, 292⟩ := by decide +kernel
  have hread : ∀ negative : Bool, ∀ last < 2, startsReal ((if negative then "-" else "")
      ++ layout.decimalText (Decimal.trim 20 ⟨17976931348623155 + 2 * last, 292⟩)).toList
        = true := by decide +kernel
  have hmagnitude : x.magnitude < Binary64.infiniteMagnitude ∧ x.magnitude ≠ 0 := by
    unfold Binary64.infiniteMagnitude at hx ⊢
    omega
  have hfinite : x.isFinite = true := decide_eq_true hmagnitude.1
  rw [text, if_pos hfinite, Layout.text, if_neg hmagnitude.2, hx, hshortest last hlast]
  exact hread _ _ hlast

/-- **The text of a finite double is read as a finite double.** -/
theorem IsTextOf.exists_value? {numeral : Numeral} {x : Binary64} (h : IsTextOf numeral x)
    (hfinite : x.isFinite = true) : ∃ y, numeral.value? = some (.real y) := by
  have hmagnitude : x.magnitude < Binary64.infiniteMagnitude := of_decide_eq_true hfinite
  have hvalue : numeral.value? = numeral.real? := if_neg h.isReal
  suffices hsome : numeral.real?.isSome by
    obtain ⟨number, hnumber⟩ := Option.isSome_iff_exists.mp hsome
    obtain ⟨y, -, rfl⟩ := Option.map_eq_some_iff.mp hnumber
    exact ⟨y, hvalue.trans hnumber⟩
  rcases Nat.lt_or_ge x.magnitude (Binary64.infiniteMagnitude - 2) with hlow | hlast
  · obtain ⟨hfits, zeros, hdigits, hexponent⟩ := Numeral.kept_le h.isWritten h.length_whole
    have hnearest : Binary64.nearestDecimal numeral.kept ≤ x.magnitude := by
      have hkept : numeral.kept = ⟨numeral.kept.digits, numeral.decimal.exponent + zeros⟩ := by
        rw [← hexponent]
      rw [hkept, ← Binary64.nearestDecimal_mul_pow, ← h.nearest]
      exact Binary64.nearestDecimal_le hdigits (h.nearest ▸ hmagnitude)
    have hscaled := Binary64.scaled_lt hfits (hnearest.trans_lt hlow)
    rw [Numeral.real?, Binary64.ofDecimal?, if_pos hscaled]
    rfl
  · obtain ⟨last, hx⟩ := Nat.exists_eq_add_of_le hlast
    have hends : Numeral.EndsInteger [] := nofun
    have hreal := startsReal_last (by omega) hx
    rw [h.chars, startsReal, ← List.append_nil numeral.chars,
      Numeral.scan_chars h.isWritten hends] at hreal
    exact hreal

end Number

end EntityQuery
