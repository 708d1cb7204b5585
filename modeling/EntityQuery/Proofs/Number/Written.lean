import EntityQuery.Json.Printer
import EntityQuery.Proofs.Json.Numeral
import EntityQuery.Proofs.Number.Nearest

/-!
# Proofs/Number/Written — the text of a double is a numeral

    1.5    0.00001    1e-6    1.25e+16

A layout puts the digits of a decimal before the point, around it or behind it, or moves the point
behind the first digit and writes an exponent.  Whichever it does, the characters are a numeral that
is worth the decimal (`Layout.exists_writes`).  Since the shortest decimal of a finite double rounds
to it, so does the numeral that is its text (`Number.exists_isTextOf`).
-/

namespace EntityQuery

/-! ## Decimals as they are written -/

/-- The digits of a positive number, without a zero in front. -/
structure LeadingDigits (digits : List Char) (n : Nat) : Prop where
  exists_first : ∃ first rest, digits = first :: rest ∧ first ≠ '0'
  isDigit : ∀ c ∈ digits, c.isDigit = true
  natOf : Numeral.natOf digits = n

/-- The digits of a positive number do not begin with a zero. -/
theorem exists_first_toDigits {n : Nat} (h : 0 < n) :
    ∃ first rest, Nat.toDigits 10 n = first :: rest ∧ first ≠ '0' := by
  induction n using Nat.strongRecOn with
  | ind n ih =>
    rw [Nat.toDigits_eq_if (by decide)]
    split
    · next hsmall =>
      have hdigit : ∀ n < 10, 0 < n → n.digitChar ≠ '0' := by decide
      exact ⟨_, [], rfl, hdigit n hsmall h⟩
    · next hlarge =>
      obtain ⟨first, rest, hdigits, hfirst⟩ := ih (n / 10) (by omega) (by omega)
      exact ⟨first, _, by rw [hdigits, List.cons_append], hfirst⟩

theorem leadingDigits_repr {n : Nat} (h : 0 < n) : LeadingDigits n.repr.toList n := by
  rw [Nat.toList_repr]
  exact ⟨exists_first_toDigits h,
    fun c hc => Nat.isDigit_of_mem_toDigits (by decide) (by decide) hc,
    Nat.ofDigitChars_ten_toDigits⟩

namespace Numeral

theorem isDigits_repr (n : Nat) : IsDigits n.repr.toList := by
  rw [Nat.toList_repr]
  exact ⟨Nat.toDigits_ne_nil, fun c hc => Nat.isDigit_of_mem_toDigits (by decide) (by decide) hc⟩

theorem natOf_repr (n : Nat) : natOf n.repr.toList = n := by
  rw [Nat.toList_repr]
  exact Nat.ofDigitChars_ten_toDigits

theorem isDigits_zero : IsDigits ['0'] :=
  ⟨List.cons_ne_nil _ _, List.forall_mem_singleton.mpr rfl⟩

/-- A numeral writes a decimal: it is a double, worth as much, with zeros behind the digits. -/
structure Writes (numeral : Numeral) (decimal : Decimal) : Prop where
  isWritten : numeral.IsWritten
  isReal : ¬(numeral.fraction.isNone ∧ numeral.exponent.isNone)
  exists_zeros : ∃ zeros : Nat,
    numeral.decimal = ⟨decimal.digits * 10 ^ zeros, decimal.exponent - zeros⟩

theorem isDigits_append {first second : List Char} (hne : first ≠ [] ∨ second ≠ [])
    (hfirst : ∀ c ∈ first, c.isDigit = true) (hsecond : ∀ c ∈ second, c.isDigit = true) :
    IsDigits (first ++ second) := by
  refine ⟨fun heq => ?_, fun c hc => (List.mem_append.mp hc).elim (hfirst c) (hsecond c)⟩
  obtain ⟨rfl, rfl⟩ := List.append_eq_nil_iff.mp heq
  exact hne.elim (absurd rfl) (absurd rfl)

theorem isDigit_of_mem_zeros {count : Nat} {c : Char} (h : c ∈ List.replicate count '0') :
    c.isDigit = true := by
  rw [List.eq_of_mem_replicate h]
  rfl

end Numeral

namespace Layout

variable {digits : List Char} {n : Nat} (h : LeadingDigits digits n) (negative : Bool)

include h

/-- All digits stand before the point, with zeros behind them. -/
theorem writes_whole {exponent : Int} (hexponent : 0 ≤ exponent) :
    Numeral.Writes ⟨negative, digits ++ List.replicate exponent.toNat '0', some ['0'], none⟩
      ⟨n, exponent⟩ := by
  obtain ⟨⟨first, rest, rfl, hfirst⟩, hdigits, hvalue⟩ := h
  refine ⟨⟨?_, ?_, ?_, nofun⟩, nofun, exponent.toNat + 1, ?_⟩
  · exact Numeral.isDigits_append (.inl (List.cons_ne_nil _ _)) hdigits
      fun c hc => Numeral.isDigit_of_mem_zeros hc
  · exact fun hhead => absurd (Option.some.inj hhead) hfirst
  · rintro _ ⟨⟩
    exact Numeral.isDigits_zero
  · have hzeros : Numeral.natOf (first :: rest ++ List.replicate exponent.toNat '0' ++ ['0'])
        = n * 10 ^ (exponent.toNat + 1) := by
      rw [Numeral.natOf, Nat.ofDigitChars_append, Nat.ofDigitChars_append,
        Nat.ofDigitChars_replicate_zero]
      rw [Numeral.natOf] at hvalue
      rw [hvalue]
      change 10 * (10 ^ exponent.toNat * n) + 0 = _
      ring
    have hexponents : (0 : Int) - 1 = exponent - (exponent.toNat + 1 : Nat) := by omega
    exact congrArg₂ Decimal.mk hzeros hexponents

/-- The point stands between the digits. -/
theorem writes_split {exponent : Int} {point : Nat} (hpos : 0 < point)
    (hpoint : (point : Int) = exponent + digits.length) (hexponent : exponent < 0) :
    Numeral.Writes ⟨negative, digits.take point, some (digits.drop point), none⟩
      ⟨n, exponent⟩ := by
  obtain ⟨⟨first, rest, rfl, hfirst⟩, hdigits, hvalue⟩ := h
  obtain ⟨before, rfl⟩ := Nat.exists_eq_add_of_lt hpos
  have hwhole : (first :: rest).take (0 + before + 1) = first :: rest.take before := by
    rw [Nat.zero_add, List.take_succ_cons]
  have hlength : ((first :: rest).drop (0 + before + 1)).length
      = (first :: rest).length - (0 + before + 1) := List.length_drop
  refine ⟨⟨?_, ?_, ?_, nofun⟩, nofun, 0, ?_⟩
  · rw [hwhole]
    exact ⟨List.cons_ne_nil _ _, fun c hc => hdigits c (List.mem_of_mem_take (hwhole ▸ hc))⟩
  · rw [hwhole]
    exact fun hhead => absurd (Option.some.inj hhead) hfirst
  · rintro _ ⟨⟩
    refine ⟨fun hnil => ?_, fun c hc => hdigits c (List.mem_of_mem_drop hc)⟩
    rw [hnil, List.length_nil] at hlength
    omega
  · have hall : Numeral.natOf ((first :: rest).take (0 + before + 1)
        ++ (first :: rest).drop (0 + before + 1)) = n * 10 ^ 0 := by
      rw [List.take_append_drop, hvalue, Nat.pow_zero, Nat.mul_one]
    have hexponents : (0 : Int) - ((first :: rest).drop (0 + before + 1)).length
        = exponent - (0 : Nat) := by omega
    exact congrArg₂ Decimal.mk hall hexponents

/-- The digits stand behind the point and zeros. -/
theorem writes_small {exponent : Int} {zeros : Nat}
    (hzeros : -(zeros : Int) = exponent + digits.length) :
    Numeral.Writes ⟨negative, ['0'], some (List.replicate zeros '0' ++ digits), none⟩
      ⟨n, exponent⟩ := by
  obtain ⟨⟨first, rest, rfl, -⟩, hdigits, hvalue⟩ := h
  refine ⟨⟨Numeral.isDigits_zero, fun _ => rfl, ?_, nofun⟩, nofun, 0, ?_⟩
  · rintro _ ⟨⟩
    exact Numeral.isDigits_append (.inr (List.cons_ne_nil _ _))
      (fun c hc => Numeral.isDigit_of_mem_zeros hc) hdigits
  · have hall : Numeral.natOf (['0'] ++ (List.replicate zeros '0' ++ first :: rest))
        = n * 10 ^ 0 := by
      rw [Numeral.natOf, Nat.ofDigitChars_append, Nat.ofDigitChars_append,
        Nat.ofDigitChars_replicate_zero, Nat.pow_zero, Nat.mul_one]
      exact hvalue
    have hexponents : (0 : Int) - (List.replicate zeros '0' ++ first :: rest).length
        = exponent - (0 : Nat) := by
      rw [List.length_append, List.length_replicate]
      omega
    exact congrArg₂ Decimal.mk hall hexponents

/-- One digit stands before the point, if any follow, and the exponent makes up for it. -/
theorem writes_scientific {exponent top : Int} (htop : top = exponent + digits.length - 1) :
    Numeral.Writes ⟨negative, digits.take 1,
        if (digits.drop 1).isEmpty then none else some (digits.drop 1),
        some (decide (top < 0), top.natAbs.repr.toList)⟩ ⟨n, exponent⟩ := by
  obtain ⟨⟨first, rest, rfl, hfirst⟩, hdigits, hvalue⟩ := h
  refine ⟨⟨⟨List.cons_ne_nil _ _, ?_⟩, fun hhead => ?_, ?_, ?_⟩, nofun, 0, ?_⟩
  · exact fun c hc => hdigits c (List.mem_of_mem_take hc)
  · exact absurd (Option.some.inj hhead) hfirst
  · intro digits hfraction
    rcases rest with _ | ⟨second, rest⟩
    · contradiction
    · obtain rfl := Option.some.inj hfraction
      exact ⟨List.cons_ne_nil _ _, fun c hc => hdigits c (List.mem_cons_of_mem _ hc)⟩
  · rintro _ ⟨⟩
    exact Numeral.isDigits_repr _
  · have hall : Numeral.natOf ((first :: rest).take 1 ++ Option.getD
        (if rest.isEmpty then none else some rest) []) = n * 10 ^ 0 := by
      rw [Nat.pow_zero, Nat.mul_one, ← hvalue]
      rcases rest with _ | ⟨second, rest⟩ <;> rfl
    have hexponent : Numeral.exponentOf ⟨negative, (first :: rest).take 1,
        if rest.isEmpty then none else some rest,
        some (decide (top < 0), top.natAbs.repr.toList)⟩ = top := by
      by_cases hnegative : top < 0
      · simp only [Numeral.exponentOf, hnegative, decide_true, Numeral.natOf_repr]
        omega
      · simp only [Numeral.exponentOf, hnegative, decide_false, Numeral.natOf_repr]
        omega
    have hlength : (Option.getD (if rest.isEmpty then none else some rest) []).length
        = rest.length := by
      rcases rest with _ | ⟨second, rest⟩ <;> rfl
    have hexponents : Numeral.exponentOf ⟨negative, (first :: rest).take 1,
          if rest.isEmpty then none else some rest,
          some (decide (top < 0), top.natAbs.repr.toList)⟩
        - (Option.getD (if rest.isEmpty then none else some rest) []).length
        = exponent - (0 : Nat) := by
      rw [List.length_cons] at htop
      rw [hexponent, hlength]
      omega
    exact congrArg₂ Decimal.mk hall hexponents

omit h

/-- **The text of a decimal is that of a numeral which writes it.** -/
theorem exists_writes {layout : Layout} (hplus : layout.plus = "+") {decimal : Decimal}
    (hpos : 0 < decimal.digits) : ∃ numeral : Numeral, numeral.negative = negative
      ∧ numeral.Writes decimal ∧ (layout.decimalText decimal).toList
        = numeral.whole ++ (Numeral.fractionChars numeral.fraction
          ++ Numeral.exponentChars numeral.exponent)
      ∧ (numeral.whole.length : Int) ≤ max layout.greatestPositional 0 + 1 := by
  have h := leadingDigits_repr hpos
  obtain ⟨n, exponent⟩ := decimal
  rw [decimalText]
  dsimp only at h ⊢
  generalize n.repr.toList = digits at h ⊢
  generalize htop : exponent + digits.length - 1 = top
  split
  · split
    · next hexponent =>
      refine ⟨_, rfl, writes_whole h negative hexponent, ?_, ?_⟩
      · simp [Numeral.fractionChars, Numeral.exponentChars]
      · rw [List.length_append, List.length_replicate]
        omega
    · next hexponent =>
      split
      · next hleading =>
        have hpoint : ((top.toNat + 1 : Nat) : Int) = exponent + digits.length := by omega
        refine ⟨_, rfl, writes_split h negative (Nat.succ_pos _) hpoint (by omega), ?_, ?_⟩
        · simp [Numeral.fractionChars, Numeral.exponentChars]
        · dsimp only
          rw [List.length_take]
          omega
      · next hleading =>
        have hzeros : -((-top - 1).toNat : Int) = exponent + digits.length := by omega
        refine ⟨_, rfl, writes_small h negative hzeros, ?_, ?_⟩
        · simp [Numeral.fractionChars, Numeral.exponentChars]
        · rw [List.length_singleton]
          omega
  · have hfirst : (digits.take 1).length ≤ 1 := List.length_take_le 1 digits
    refine ⟨_, rfl, writes_scientific h negative htop.symm, ?_, by dsimp only; omega⟩
    have hsign : (layout.exponentText top).toList
        = (if decide (top < 0) then '-' else '+') :: top.natAbs.repr.toList := by
      rw [exponentText, hplus]
      by_cases hnegative : top < 0 <;> simp [hnegative]
    rw [String.toList_append, String.toList_append, hsign]
    obtain ⟨⟨first, rest, rfl, -⟩, -, -⟩ := h
    rcases rest with _ | ⟨second, rest⟩ <;>
      simp [Numeral.fractionChars, Numeral.exponentChars]

end Layout

/-- What writes a decimal is worth as much. -/
theorem Numeral.Writes.nearestDecimal {numeral : Numeral} {decimal : Decimal}
    (h : numeral.Writes decimal) :
    Binary64.nearestDecimal numeral.decimal = Binary64.nearestDecimal decimal := by
  obtain ⟨zeros, hzeros⟩ := h.exists_zeros
  rw [hzeros, Binary64.nearestDecimal_mul_pow, Int.sub_add_cancel]

/-- A decimal that is not nearest to zero has digits. -/
theorem Binary64.digits_pos_of_nearestDecimal {decimal : Decimal}
    (h : 0 < nearestDecimal decimal) : 0 < decimal.digits := by
  refine Nat.pos_of_ne_zero fun hzero => ?_
  rw [nearestDecimal] at h
  simp [hzero] at h

namespace Number

/-- A numeral is the text of a double: it is one by its looks, of the same sign, and this double is
nearest to it.  Its whole part is short. -/
structure IsTextOf (numeral : Numeral) (x : Binary64) : Prop where
  chars : (real x).text.toList = numeral.chars
  isWritten : numeral.IsWritten
  isReal : ¬(numeral.fraction.isNone ∧ numeral.exponent.isNone)
  negative : numeral.negative = x.isNegative
  nearest : Binary64.nearestDecimal numeral.decimal = x.magnitude
  length_whole : numeral.whole.length ≤ 16

/-- **The text of a finite double is a numeral that it is nearest to.** -/
theorem exists_isTextOf {x : Binary64} (h : x.isFinite = true) :
    ∃ numeral, IsTextOf numeral x := by
  have hfinite : x.magnitude < Binary64.infiniteMagnitude := of_decide_eq_true h
  have htext : (real x).text = layout.text x := if_pos h
  have hsign : (if x.isNegative then "-" else "").toList
      = if x.isNegative then ['-'] else [] := by
    cases x.isNegative <;> rfl
  rw [Layout.text] at htext
  by_cases hzero : x.magnitude = 0
  · refine ⟨⟨x.isNegative, ['0'], some ['0'], none⟩, ?_, ?_, nofun, rfl, hzero.symm ▸ rfl,
      Nat.le_add_left 1 15⟩
    · rw [htext, if_pos hzero, String.toList_append, hsign]
      rfl
    · refine ⟨Numeral.isDigits_zero, fun _ => rfl, ?_, nofun⟩
      rintro _ ⟨⟩
      exact Numeral.isDigits_zero
  · have hpos := Nat.pos_of_ne_zero hzero
    have hnearest : Binary64.nearestDecimal ((Binary64.shortest x.magnitude).trim 20)
        = x.magnitude := by
      rw [Binary64.nearestDecimal_trim, Binary64.nearestDecimal_shortest hpos hfinite]
    have hdigits := Binary64.digits_pos_of_nearestDecimal (hnearest.symm ▸ hpos)
    have hplus : layout.plus = "+" := rfl
    obtain ⟨numeral, hnegative, hwrites, hchars, hlength⟩ :=
      Layout.exists_writes x.isNegative hplus hdigits
    refine ⟨numeral, ?_, hwrites.isWritten, hwrites.isReal, hnegative,
      hwrites.nearestDecimal.trans hnearest, Int.ofNat_le.mp hlength⟩
    rw [htext, if_neg hzero, String.toList_append, hsign, hchars, Numeral.chars, hnegative]

end Number

end EntityQuery
