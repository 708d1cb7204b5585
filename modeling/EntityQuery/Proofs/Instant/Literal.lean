import EntityQuery.Instant.Basic
import EntityQuery.Proofs.Instant.Civil

/-!
# Proofs/Instant/Literal — literals compare as the seconds they write

A literal is six numbers of fixed width with marks between them (`toList_literal`), so comparing
literals byte by byte is comparing the numbers one after the other: `digits_append_lt_iff` does it
for one number.  The first three numbers are a date, which the calendar orders as the days, and the
last three a clock reading.

A leap second is the sixtieth of its minute, so it needs a minute to end there; an instant has that
when it is `IsRegular`.
-/

namespace EntityQuery

open Calendar (Date)

/-! ## Bytes -/

/-- The bytes of a text. -/
def utf8Bytes (text : String) : List UInt8 :=
  text.toUTF8.data.toList

/-- A text of ASCII characters has one byte for each. -/
theorem utf8Bytes_ofList {cs : List Char} (h : ∀ c ∈ cs, c.toNat < 128) :
    utf8Bytes (.ofList cs) = cs.map fun c => UInt8.ofNat c.toNat := by
  have hone : ∀ c ∈ cs, String.utf8EncodeChar c = [UInt8.ofNat c.toNat] := fun c hc => by
    rw [String.utf8EncodeChar]
    exact if_pos (Nat.le_of_lt_succ (h c hc))
  have hbytes : utf8Bytes (.ofList cs) = cs.flatMap String.utf8EncodeChar := by
    simp [utf8Bytes, List.utf8Encode]
  rw [hbytes]
  clear hbytes h
  induction cs with
  | nil => rfl
  | cons c rest ih =>
    rw [List.flatMap_cons, hone c List.mem_cons_self,
      ih fun other hother => hone other (List.mem_cons_of_mem c hother)]
    rfl

/-- ASCII texts compare by their bytes as by their characters. -/
theorem utf8Bytes_lt_iff {cs other : List Char} (h : ∀ c ∈ cs, c.toNat < 128)
    (hother : ∀ c ∈ other, c.toNat < 128) :
    utf8Bytes (.ofList cs) < utf8Bytes (.ofList other) ↔ cs < other := by
  rw [utf8Bytes_ofList h, utf8Bytes_ofList hother]
  induction cs generalizing other with
  | nil => cases other <;> simp
  | cons c rest ih =>
    cases other with
    | nil => simp
    | cons d others =>
      have hc := h c List.mem_cons_self
      have hd := hother d List.mem_cons_self
      have hrest := ih (fun e he => h e (List.mem_cons_of_mem c he))
        fun e he => hother e (List.mem_cons_of_mem d he)
      have hbyte : ∀ e : Char, e.toNat < 128 → (UInt8.ofNat e.toNat).toNat = e.toNat :=
        fun e he => UInt8.toNat_ofNat_of_lt' (Nat.lt_trans he (by decide))
      have hlt : UInt8.ofNat c.toNat < UInt8.ofNat d.toNat ↔ c < d := by
        rw [UInt8.lt_iff_toNat_lt, hbyte c hc, hbyte d hd]
        exact Iff.rfl
      have heq : UInt8.ofNat c.toNat = UInt8.ofNat d.toNat ↔ c = d := by
        rw [← UInt8.toNat_inj, hbyte c hc, hbyte d hd, Char.toNat_inj]
      rw [List.map_cons, List.map_cons, List.cons_lt_cons_iff, List.cons_lt_cons_iff, hlt, heq,
        hrest]

namespace Instant

/-! ## Numbers of fixed width -/

/-- The last decimal digits of a number, so many of them. -/
def digits : Nat → Nat → List Char
  | 0, _ => []
  | width + 1, n => digits width (n / 10) ++ [(n % 10).digitChar]

@[simp] theorem length_digits (width n : Nat) : (digits width n).length = width := by
  induction width generalizing n with
  | zero => rfl
  | succ width ih => rw [digits, List.length_append, ih, List.length_singleton]

theorem isDigit_of_mem_digits {width n : Nat} {c : Char} (h : c ∈ digits width n) :
    c.isDigit = true := by
  induction width generalizing n with
  | zero => exact nomatch h
  | succ width ih =>
    rw [digits, List.mem_append, List.mem_singleton] at h
    rcases h with h | rfl
    · exact ih h
    · rw [Nat.isDigit_digitChar, decide_eq_true_eq]
      exact Nat.mod_lt n (by decide)

/-- A number that needs no more digits than it may have is padded to that width. -/
theorem toList_padded {width n : Nat} (hwidth : 0 < width) (h : n < 10 ^ width) :
    (padded width n).toList = digits width n := by
  rw [padded, String.toList_ofList]
  induction width generalizing n with
  | zero => exact absurd hwidth (Nat.lt_irrefl 0)
  | succ width ih =>
    rw [digits, Nat.toDigits_eq_if (by decide)]
    rcases Nat.eq_zero_or_pos width with rfl | hpos
    · rw [if_pos (by omega), Nat.mod_eq_of_lt (by omega)]
      rfl
    · have hten : n / 10 < 10 ^ width := by
        rw [Nat.pow_succ] at h
        omega
      rw [← ih hpos hten]
      split
      · rename_i hsmall
        rw [Nat.div_eq_of_lt hsmall, Nat.mod_eq_of_lt hsmall, Nat.toDigits_of_lt_base (by decide)]
        have hzeros : List.replicate (width + 1 - 1) '0'
            = List.replicate (width - 1) '0' ++ ['0'] := by
          rw [← List.replicate_succ', Nat.sub_add_cancel hpos, Nat.add_sub_cancel]
        change List.replicate (width + 1 - 1) '0' ++ [n.digitChar]
          = List.replicate (width - 1) '0' ++ ['0'] ++ [n.digitChar]
        rw [hzeros]
      · rw [List.length_append, List.length_singleton, Nat.add_sub_add_right, List.append_assoc]

/-- Digits are ordered as their characters are. -/
theorem digitChar_lt_iff {n m : Nat} (hn : n < 10) (hm : m < 10) :
    n.digitChar < m.digitChar ↔ n < m := by
  have hchars : n.digitChar < m.digitChar ↔ n.digitChar.toNat < m.digitChar.toNat := Iff.rfl
  rw [hchars, Nat.toNat_digitChar_of_lt_ten hn, Nat.toNat_digitChar_of_lt_ten hm]
  omega

theorem digitChar_inj {n m : Nat} (hn : n < 10) (hm : m < 10) :
    n.digitChar = m.digitChar ↔ n = m := by
  rw [← Char.toNat_inj, Nat.toNat_digitChar_of_lt_ten hn, Nat.toNat_digitChar_of_lt_ten hm]
  omega

/-- **Numbers of one width compare as they are written**, and what follows decides only after
equal ones. -/
theorem digits_append_lt_iff {width n m : Nat} (hn : n < 10 ^ width) (hm : m < 10 ^ width)
    {rest other : List Char} :
    digits width n ++ rest < digits width m ++ other ↔ n < m ∨ n = m ∧ rest < other := by
  induction width generalizing n m rest other with
  | zero =>
    rw [Nat.pow_zero] at hn hm
    simp [digits, show n = m by omega]
  | succ width ih =>
    rw [Nat.pow_succ] at hn hm
    have hlast := digitChar_lt_iff (Nat.mod_lt n (by decide : 10 > 0)) (Nat.mod_lt m (by decide))
    have hsame := digitChar_inj (Nat.mod_lt n (by decide : 10 > 0)) (Nat.mod_lt m (by decide))
    rw [digits, digits, List.append_assoc, List.append_assoc, ih (by omega) (by omega),
      List.singleton_append, List.singleton_append, List.cons_lt_cons_iff, hlast, hsame]
    constructor
    · rintro (h | ⟨h, h' | ⟨h', hrest⟩⟩)
      · exact .inl (by omega)
      · exact .inl (by omega)
      · exact .inr ⟨by omega, hrest⟩
    · rintro (h | ⟨rfl, hrest⟩)
      · omega
      · exact .inr ⟨rfl, .inr ⟨rfl, hrest⟩⟩

/-- Numbers of one width are ordered as their digits are. -/
theorem digits_lt_iff {width n m : Nat} (hn : n < 10 ^ width) (hm : m < 10 ^ width) :
    digits width n < digits width m ↔ n < m := by
  have h : digits width n ++ [] < digits width m ++ [] ↔ n < m ∨ n = m ∧ ([] : List Char) < [] :=
    digits_append_lt_iff hn hm
  simpa using h

/-! ## Instants -/

/-- Instants are ordered by their seconds, and within a second by their nanoseconds. -/
instance : LT Instant :=
  ⟨fun first second => first.seconds < second.seconds ∨
    first.seconds = second.seconds ∧ first.nanoseconds < second.nanoseconds⟩

theorem lt_iff {first second : Instant} :
    first < second ↔ first.seconds < second.seconds ∨
      first.seconds = second.seconds ∧ first.nanoseconds < second.nanoseconds := Iff.rfl

/-- The whole second that an instant lies in; a leap second is a second of its own. -/
def truncate (instant : Instant) : Instant :=
  ⟨instant.seconds, instant.nanoseconds / second * second⟩

/-- A leap second ends a minute, and there is one at most. -/
structure IsRegular (instant : Instant) : Prop where
  /-- The nanoseconds are those of a second or of the leap second after it. -/
  nanoseconds : instant.nanoseconds < 2 * second
  /-- A leap second comes after the last second of a minute. -/
  ends_minute : second ≤ instant.nanoseconds → instant.seconds % 60 = 59

/-- The seconds of the minute, sixty in a leap second. -/
def secondOfMinute (instant : Instant) : Nat :=
  instant.secondOfDay % 60 + instant.nanoseconds / second

theorem secondOfDay_lt (instant : Instant) : instant.secondOfDay < 86400 := by
  unfold secondOfDay
  omega

/-- A second counts as leap exactly at the sixtieth of its minute. -/
theorem IsRegular.secondOfMinute_cases {instant : Instant} (h : instant.IsRegular) :
    (instant.nanoseconds / second = 0 ∧ instant.secondOfMinute = instant.secondOfDay % 60) ∨
      (instant.nanoseconds / second = 1 ∧ instant.secondOfDay % 60 = 59
        ∧ instant.secondOfMinute = 60) := by
  have hbound := h.nanoseconds
  have hends := h.ends_minute
  unfold secondOfMinute secondOfDay
  unfold second at *
  omega

/-- A minute has sixty seconds, and one more with a leap second. -/
theorem IsRegular.secondOfMinute_lt {instant : Instant} (h : instant.IsRegular) :
    instant.secondOfMinute < 61 := by
  rcases h.secondOfMinute_cases with ⟨-, h⟩ | ⟨-, -, h⟩ <;> omega

/-! ## The numbers of a literal -/

/-- The numbers after the year, with the marks in front of them. -/
def afterYear (instant : Instant) : List Char :=
  '-' :: (digits 2 instant.date.month ++ '-' :: (digits 2 instant.date.day ++ ' '
    :: (digits 2 (instant.secondOfDay / 3600) ++ ':'
      :: (digits 2 (instant.secondOfDay / 60 % 60) ++ ':' :: digits 2 instant.secondOfMinute))))

/-- An instant of a year of four digits. -/
def HasPlainYear (instant : Instant) : Prop :=
  0 ≤ instant.date.year ∧ instant.date.year ≤ 9999

theorem HasPlainYear.toNat_lt {instant : Instant} (h : instant.HasPlainYear) :
    instant.date.year.toNat < 10 ^ 4 := by
  unfold HasPlainYear at h
  omega

/-- The numbers after the year have two digits. -/
theorem IsRegular.two_digits {instant : Instant} (h : instant.IsRegular) :
    instant.date.month < 10 ^ 2 ∧ instant.date.day < 10 ^ 2
      ∧ instant.secondOfDay / 3600 < 10 ^ 2 ∧ instant.secondOfDay / 60 % 60 < 10 ^ 2
      ∧ instant.secondOfMinute < 10 ^ 2 := by
  obtain ⟨hmonth, hday⟩ := Date.bounds_of_isValid (Date.isValid_ofDay (instant.seconds / 86400))
  have htime := instant.secondOfDay_lt
  have hseconds := h.secondOfMinute_lt
  exact ⟨Nat.lt_of_le_of_lt hmonth (by decide), Nat.lt_of_le_of_lt hday (by decide), by omega,
    by omega, by omega⟩

theorem toList_yearText {year : Int} (hlow : 0 ≤ year) (hhigh : year ≤ 9999) :
    (yearText year).toList = digits 4 year.toNat := by
  have habs : year.natAbs = year.toNat := by omega
  rw [yearText, if_neg (by omega), if_neg (by omega), habs, String.toList_append,
    toList_padded (by decide) (by omega)]
  rfl

/-- **A literal is six numbers of fixed width**, with marks between them. -/
theorem toList_literal {instant : Instant} (hyear : instant.HasPlainYear)
    (h : instant.IsRegular) :
    instant.literal.toList = digits 4 instant.date.year.toNat ++ instant.afterYear := by
  obtain ⟨hmonth, hday, hhour, hminute, hsecond⟩ := h.two_digits
  have htwo : ∀ {n}, n < 10 ^ 2 → (padded 2 n).toList = digits 2 n := toList_padded (by decide)
  rw [secondOfMinute] at hsecond
  simp only [literal, String.toList_append, toList_yearText hyear.1 hyear.2, htwo hmonth,
    htwo hday, htwo hhour, htwo hminute, htwo hsecond]
  simp [afterYear, secondOfMinute]

/-- The characters of a literal are digits and four marks. -/
theorem isAscii_of_mem_literal {instant : Instant} (hyear : instant.HasPlainYear)
    (h : instant.IsRegular) : ∀ c ∈ instant.literal.toList, c.toNat < 128 := by
  have hdigit : ∀ {width n : Nat} {c : Char}, c ∈ digits width n → c.toNat < 128 := fun hc =>
    Nat.lt_of_le_of_lt (Char.isDigit_iff_toNat.mp (isDigit_of_mem_digits hc)).2 (by decide)
  rw [toList_literal hyear h]
  intro c hc
  simp only [afterYear, List.mem_append, List.mem_cons] at hc
  rcases hc with hc | rfl | hc | rfl | hc | rfl | hc | rfl | hc | rfl | hc
  all_goals first | exact hdigit hc | decide

/-! ## The order of literals -/

/-- Clock readings compare number by number as the seconds of the day; a leap second lies between
the last second of its minute and the next minute. -/
theorem clock_lt_iff {first second : Instant} (h : first.IsRegular) (hsecond : second.IsRegular) :
    (first.secondOfDay / 3600 < second.secondOfDay / 3600 ∨
        first.secondOfDay / 3600 = second.secondOfDay / 3600 ∧
          (first.secondOfDay / 60 % 60 < second.secondOfDay / 60 % 60 ∨
            first.secondOfDay / 60 % 60 = second.secondOfDay / 60 % 60 ∧
              first.secondOfMinute < second.secondOfMinute)) ↔
      first.secondOfDay < second.secondOfDay ∨ first.secondOfDay = second.secondOfDay ∧
        first.nanoseconds / Instant.second < second.nanoseconds / Instant.second := by
  rcases h.secondOfMinute_cases with ⟨hleap, hmin⟩ | ⟨hleap, hlast, hmin⟩ <;>
    rcases hsecond.secondOfMinute_cases with ⟨hleap', hmin'⟩ | ⟨hleap', hlast', hmin'⟩ <;>
    rw [hleap, hleap', hmin, hmin'] <;> omega

/-- Whole seconds are ordered by the day, then by the clock. -/
theorem truncate_lt_iff {first second : Instant} :
    first.truncate < second.truncate ↔
      first.date.Before second.date ∨ first.date = second.date ∧
        (first.secondOfDay < second.secondOfDay ∨ first.secondOfDay = second.secondOfDay ∧
          first.nanoseconds / Instant.second < second.nanoseconds / Instant.second) := by
  have hbefore : first.date.Before second.date ↔ first.seconds / 86400 < second.seconds / 86400 :=
    Date.ofDay_before_iff
  have hdate : first.date = second.date ↔ first.seconds / 86400 = second.seconds / 86400 :=
    ⟨Date.ofDay_injective, congrArg Date.ofDay⟩
  have hnanos : first.truncate.nanoseconds < second.truncate.nanoseconds ↔
      first.nanoseconds / Instant.second < second.nanoseconds / Instant.second :=
    Nat.mul_lt_mul_right (by decide)
  have hseconds : ∀ instant : Instant, instant.truncate.seconds = instant.seconds := fun _ => rfl
  rw [lt_iff, hnanos, hbefore, hdate, hseconds, hseconds]
  unfold secondOfDay
  omega

/-- **Literals sort as the seconds they write.** -/
theorem utf8Bytes_literal_lt_iff {first second : Instant} (hyear : first.HasPlainYear)
    (hyear' : second.HasPlainYear) (h : first.IsRegular) (h' : second.IsRegular) :
    utf8Bytes first.literal < utf8Bytes second.literal ↔ first.truncate < second.truncate := by
  obtain ⟨hmonth, hday, hhour, hminute, hsecond⟩ := h.two_digits
  obtain ⟨hmonth', hday', hhour', hminute', hsecond'⟩ := h'.two_digits
  have htexts : utf8Bytes first.literal < utf8Bytes second.literal
      ↔ first.literal.toList < second.literal.toList := by
    rw [← utf8Bytes_lt_iff (isAscii_of_mem_literal hyear h) (isAscii_of_mem_literal hyear' h'),
      String.ofList_toList, String.ofList_toList]
  have hyears : first.date.year.toNat < second.date.year.toNat ↔
      first.date.year < second.date.year := by
    unfold HasPlainYear at *
    omega
  have hsame : first.date.year.toNat = second.date.year.toNat ↔
      first.date.year = second.date.year := by
    unfold HasPlainYear at *
    omega
  rw [htexts, toList_literal hyear h, toList_literal hyear' h', afterYear, afterYear,
    digits_append_lt_iff hyear.toNat_lt hyear'.toNat_lt, List.cons_lt_cons_self,
    digits_append_lt_iff hmonth hmonth', List.cons_lt_cons_self,
    digits_append_lt_iff hday hday', List.cons_lt_cons_self,
    digits_append_lt_iff hhour hhour', List.cons_lt_cons_self,
    digits_append_lt_iff hminute hminute', List.cons_lt_cons_self,
    digits_lt_iff hsecond hsecond', clock_lt_iff h h', truncate_lt_iff, hyears, hsame,
    Date.Before, Date.eq_iff]
  simp only [and_or_left, or_assoc, and_assoc]

end Instant

end EntityQuery
