import EntityQuery.Proofs.Instant.Civil
import EntityQuery.Proofs.Instant.Order
import Mathlib.Logic.Function.Iterate

/-!
# Proofs/Instant/Timestamp — clocks that go differently show one instant

    clock A      23:30  29 Feb     +00:00         literal      2020-02-29 23:30:00
                   │  + 90 min        │ + 90 min                     ↕
    clock B      01:00   1 Mar     +01:30         instant            n seconds

A timestamp is spelled by its numbers in their widths (`Timestamp.Spells`), and reading takes it off
again, number by number (`Timestamp.read_of_spells`).  The minute after a clock reading is the civil
one, with the ends of hours, days, months and years (`Clock.next`); it is a minute later, so a clock
that is ahead by some minutes and says so in its offset is read as the same instant
(`Timestamp.Ahead.instant_eq`).  A literal is a timestamp without a fraction by the clock of UTC, so
it is read as the whole second that it was written for (`read_literal`).
-/

namespace EntityQuery.Instant

open Calendar (Date)

/-! ## Clocks -/

/-- What a clock shows: a date, an hour and a minute. -/
structure Clock where
  date : Date
  hour : Nat
  minute : Nat
  deriving DecidableEq

namespace Clock

/-- A reading of a valid date. -/
structure IsValid (clock : Clock) : Prop where
  date : clock.date.isValid = true
  hour : clock.hour < 24
  minute : clock.minute < 60

/-- What the clock shows a minute later. -/
def next (clock : Clock) : Clock :=
  if clock.minute < 59 then ⟨clock.date, clock.hour, clock.minute + 1⟩
  else if clock.hour < 23 then ⟨clock.date, clock.hour + 1, 0⟩
  else ⟨clock.date.next, 0, 0⟩

/-- The minutes since the first of January 1970. -/
def toMinutes (clock : Clock) : Int :=
  clock.date.toDay * 1440 + (60 * clock.hour + clock.minute : Nat)

/-- **A minute later, a valid clock shows a valid reading, with one minute more.** -/
theorem next_spec {clock : Clock} (h : clock.IsValid) :
    clock.next.IsValid ∧ clock.next.toMinutes = clock.toMinutes + 1 := by
  obtain ⟨hvalid, hday⟩ := Date.next_spec h.date
  have hhour := h.hour
  have hminute := h.minute
  unfold next toMinutes
  split
  · rename_i hwithin
    refine ⟨⟨h.date, h.hour, Nat.succ_lt_succ hwithin⟩, ?_⟩
    dsimp only
    omega
  · split
    · rename_i hwithin
      refine ⟨⟨h.date, Nat.succ_lt_succ hwithin, Nat.zero_lt_succ 59⟩, ?_⟩
      dsimp only
      omega
    · refine ⟨⟨hvalid, Nat.zero_lt_succ 23, Nat.zero_lt_succ 59⟩, ?_⟩
      dsimp only
      omega

/-- So it is after any number of minutes. -/
theorem iterate_next_spec {clock : Clock} (h : clock.IsValid) (minutes : Nat) :
    (next^[minutes] clock).IsValid
      ∧ (next^[minutes] clock).toMinutes = clock.toMinutes + minutes := by
  induction minutes with
  | zero => exact ⟨h, (Int.add_zero _).symm⟩
  | succ minutes ih =>
    obtain ⟨hvalid, hminutes⟩ := next_spec ih.1
    rw [Function.iterate_succ_apply', hminutes, ih.2]
    exact ⟨hvalid, by omega⟩

end Clock

/-! ## Fractions -/

/-- Digits behind a point that are worth the same. -/
def SameFraction (first second : List Char) : Prop :=
  Nat.ofDigitChars 10 first 0 * 10 ^ second.length
    = Nat.ofDigitChars 10 second 0 * 10 ^ first.length

/-- **Nanoseconds are what a fraction is worth**, rounded down. -/
theorem nanosecondsOf_eq {fraction : List Char} (h : ∀ c ∈ fraction, c.isDigit = true) :
    nanosecondsOf fraction = Nat.ofDigitChars 10 fraction 0 * second / 10 ^ fraction.length := by
  have hsecond : second = 10 ^ 9 := rfl
  rw [nanosecondsOf, hsecond]
  rcases Nat.le_total fraction.length 9 with hshort | hlong
  · -- All digits count, and there are zeros behind them.
    have hsplit : 10 ^ 9 = 10 ^ (9 - fraction.length) * 10 ^ fraction.length := by
      rw [← Nat.pow_add, Nat.sub_add_cancel hshort]
    rw [List.take_of_length_le hshort, hsplit, ← Nat.mul_assoc,
      Nat.mul_div_cancel _ (Nat.pow_pos (by decide))]
    rfl
  · -- Nine digits count, and the others are worth less than the last of them.
    have hrest := Numeral.ofDigitChars_lt fun c hc => h c (List.mem_of_mem_drop (i := 9) hc)
    have hsplit : 10 ^ fraction.length = 10 ^ (fraction.drop 9).length * 10 ^ 9 := by
      rw [← Nat.pow_add, List.length_drop, Nat.sub_add_cancel hlong]
    have hdigits : Nat.ofDigitChars 10 fraction 0
        = 10 ^ (fraction.drop 9).length * Nat.ofDigitChars 10 (fraction.take 9) 0
          + Nat.ofDigitChars 10 (fraction.drop 9) 0 := by
      rw [← Nat.ofDigitChars_eq_ofDigitChars_zero, ← Nat.ofDigitChars_append,
        List.take_append_drop]
    have hpositive : 0 < 10 ^ (fraction.drop 9).length := Nat.pow_pos (by decide)
    rw [hsplit, Nat.mul_div_mul_right _ _ (by decide), hdigits, Nat.mul_add_div hpositive,
      Nat.div_eq_of_lt hrest, List.length_take_of_le hlong]
    exact Nat.mul_one _

/-- Fractions that are worth the same have the same nanoseconds. -/
theorem nanosecondsOf_congr {first second : List Char} (hfirst : ∀ c ∈ first, c.isDigit = true)
    (hsecond : ∀ c ∈ second, c.isDigit = true) (h : SameFraction first second) :
    nanosecondsOf first = nanosecondsOf second := by
  rw [nanosecondsOf_eq hfirst, nanosecondsOf_eq hsecond,
    ← Nat.mul_div_mul_right _ _ (Nat.pow_pos (n := second.length) (by decide : 0 < 10)),
    ← Nat.mul_div_mul_right (Nat.ofDigitChars 10 second 0 * _) _
      (Nat.pow_pos (n := first.length) (by decide : 0 < 10)),
    Nat.mul_right_comm, h, Nat.mul_right_comm, Nat.mul_comm (10 ^ _)]

/-! ## Numbers that are read -/

/-- Digits of a number are worth the number. -/
theorem ofDigitChars_digits {width n : Nat} (h : n < 10 ^ width) :
    Nat.ofDigitChars 10 (digits width n) 0 = n := by
  induction width generalizing n with
  | zero =>
    rw [Nat.pow_zero] at h
    rw [digits, Nat.ofDigitChars_nil]
    omega
  | succ width ih =>
    rw [Nat.pow_succ] at h
    rw [digits, Nat.ofDigitChars_append, ih (by omega),
      Nat.ofDigitChars_cons_digitChar_of_lt_ten (Nat.mod_lt n (by decide)), Nat.ofDigitChars_nil,
      Nat.div_add_mod]

theorem fixedNumber_digits {width n : Nat} (h : n < 10 ^ width) (rest : List Char) :
    fixedNumber width (digits width n ++ rest) = some (n, rest) := by
  have hlength : (digits width n).length = width := length_digits width n
  have hdigits : (digits width n).all Char.isDigit = true :=
    List.all_eq_true.mpr fun c hc => isDigit_of_mem_digits hc
  simp only [fixedNumber, List.take_left' hlength, List.drop_left' hlength,
    ofDigitChars_digits h]
  exact if_pos ⟨hlength, hdigits⟩

theorem mark_cons {marks : List Char} {c : Char} (h : c ∈ marks) (rest : List Char) :
    mark marks (c :: rest) = some rest :=
  if_pos h

/-! ## Timestamps as they are spelled -/

/-- The texts of an offset in minutes. -/
inductive SpellsOffset : Int → List Char → Prop where
  | utc {c : Char} (h : c = 'Z' ∨ c = 'z') : SpellsOffset 0 [c]
  | east {hours minutes : Nat} (hhours : hours < 24) (hminutes : minutes < 60) :
      SpellsOffset (60 * hours + minutes : Nat) ('+' :: (digits 2 hours ++ ':' :: digits 2 minutes))
  | west {sign : Char} (hsign : sign = '-' ∨ sign = '−') {hours minutes : Nat}
      (hhours : hours < 24) (hminutes : minutes < 60) :
      SpellsOffset (-(60 * hours + minutes : Nat))
        (sign :: (digits 2 hours ++ ':' :: digits 2 minutes))

/-- The text of an offset goes on with neither a fraction nor a number. -/
theorem SpellsOffset.exists_cons {offset : Int} {zone : List Char} (h : SpellsOffset offset zone) :
    ∃ c rest, zone = c :: rest ∧ c.isDigit = false ∧ c ≠ '.' := by
  rcases h with h | ⟨-, -⟩ | ⟨h, -, -⟩
  · rcases h with rfl | rfl <;> exact ⟨_, _, rfl, by decide, by decide⟩
  · exact ⟨_, _, rfl, by decide, by decide⟩
  · rcases h with rfl | rfl <;> exact ⟨_, _, rfl, by decide, by decide⟩

/-- **An offset that is spelled is read.** -/
theorem offset_of_spells {minutes : Int} {zone : List Char} (h : SpellsOffset minutes zone) :
    offset zone = some (minutes, []) := by
  have hnumbers {hours minutes : Nat} (hhours : hours < 24) (hminutes : minutes < 60) :
      fixedNumber 2 (digits 2 hours ++ ':' :: digits 2 minutes)
          = some (hours, ':' :: digits 2 minutes)
        ∧ fixedNumber 2 (digits 2 minutes) = some (minutes, []) := by
    have hlast := @fixedNumber_digits 2 minutes (by omega) []
    rw [List.append_nil] at hlast
    exact ⟨fixedNumber_digits (by omega) _, hlast⟩
  rcases h with h | ⟨hhours, hminutes⟩ | ⟨h, hhours, hminutes⟩
  · rw [offset]
    exact if_pos h
  · obtain ⟨hfirst, hlast⟩ := hnumbers hhours hminutes
    simp [offset, hfirst, hlast, mark, hhours, hminutes]
  · obtain ⟨hfirst, hlast⟩ := hnumbers hhours hminutes
    rcases h with rfl | rfl <;> simp [offset, hfirst, hlast, mark, hhours, hminutes]

/-- A fraction is read off the front of an offset. -/
theorem fraction_append {digits zone : List Char} (h : ∀ c ∈ digits, c.isDigit = true)
    {offset : Int} (hzone : SpellsOffset offset zone) :
    fraction ((if digits = [] then [] else '.' :: digits) ++ zone)
      = some (nanosecondsOf digits, zone) := by
  obtain ⟨c, rest, rfl, hdigit, hpoint⟩ := hzone.exists_cons
  have hstop : ¬ c.isDigit = true := by rw [hdigit]; decide
  split
  · rename_i hnone
    rw [hnone, List.nil_append, fraction]
    · rfl
    · exact fun rest heq => hpoint (List.cons.inj heq).1
  · rename_i hsome
    rw [List.cons_append, fraction, List.takeWhile_append_of_pos h,
      List.dropWhile_append_of_pos h, List.takeWhile_cons_of_neg hstop,
      List.dropWhile_cons_of_neg hstop, List.append_nil]
    exact if_neg (by simpa using hsome)

/-- A clock reading to the fraction of a second, with the offset of the clock from UTC. -/
structure Timestamp where
  clock : Clock
  second : Nat
  fraction : List Char
  offset : Int

namespace Timestamp

/-- The numbers of a timestamp in their widths, with marks between, and its offset. -/
structure Spells (timestamp : Timestamp) (text : String) : Prop where
  year : 0 ≤ timestamp.clock.date.year ∧ timestamp.clock.date.year ≤ 9999
  fraction : ∀ c ∈ timestamp.fraction, c.isDigit = true
  text : ∃ mark ∈ ['T', 't', ' '], ∃ zone, SpellsOffset timestamp.offset zone
    ∧ text.toList = digits 4 timestamp.clock.date.year.toNat ++ '-'
      :: (digits 2 timestamp.clock.date.month ++ '-' :: (digits 2 timestamp.clock.date.day ++ mark
        :: (digits 2 timestamp.clock.hour ++ ':' :: (digits 2 timestamp.clock.minute ++ ':'
          :: (digits 2 timestamp.second ++ ((if timestamp.fraction = [] then []
            else '.' :: timestamp.fraction) ++ zone))))))

/-- The instant of a timestamp. -/
def instant (timestamp : Timestamp) : Instant :=
  ofClock timestamp.clock.date timestamp.clock.hour timestamp.clock.minute timestamp.second
    (nanosecondsOf timestamp.fraction) timestamp.offset

/-- A clock reading of a valid date, with the second of a minute or a leap second. -/
structure IsValid (timestamp : Timestamp) : Prop where
  clock : timestamp.clock.IsValid
  second : timestamp.second ≤ 60

/-- **A timestamp that is spelled is read as its instant.** -/
theorem read_of_spells {timestamp : Timestamp} {text : String} (h : timestamp.IsValid)
    (hspells : timestamp.Spells text) : Instant.read text = some timestamp.instant := by
  obtain ⟨separator, hseparator, zone, hzone, htext⟩ := hspells.text
  obtain ⟨hmonth, hday⟩ := Date.bounds_of_isValid h.clock.date
  have hyear := hspells.year
  have hdate : (⟨timestamp.clock.date.year.toNat, timestamp.clock.date.month,
      timestamp.clock.date.day⟩ : Date) = timestamp.clock.date :=
    Date.eq_iff.mpr ⟨Int.toNat_of_nonneg hyear.1, rfl, rfl⟩
  have hhour := h.clock.hour
  have hminute := h.clock.minute
  have hsecond := h.second
  have hread : readTimestamp text.toList = some timestamp.instant := by
    rw [htext]
    unfold readTimestamp
    -- From the year to the minute, a mark follows each number.
    refine Option.bind_eq_some_iff.mpr ⟨_, fixedNumber_digits (by omega) _, ?_⟩
    refine Option.bind_eq_some_iff.mpr ⟨_, mark_cons (by decide) _, ?_⟩
    refine Option.bind_eq_some_iff.mpr ⟨_, fixedNumber_digits (by omega) _, ?_⟩
    refine Option.bind_eq_some_iff.mpr ⟨_, mark_cons (by decide) _, ?_⟩
    refine Option.bind_eq_some_iff.mpr ⟨_, fixedNumber_digits (by omega) _, ?_⟩
    refine Option.bind_eq_some_iff.mpr ⟨_, mark_cons hseparator _, ?_⟩
    iterate 2
      refine Option.bind_eq_some_iff.mpr ⟨_, fixedNumber_digits (by omega) _, ?_⟩
      refine Option.bind_eq_some_iff.mpr ⟨_, mark_cons (by decide) _, ?_⟩
    refine Option.bind_eq_some_iff.mpr ⟨_, fixedNumber_digits (by omega) _, ?_⟩
    refine Option.bind_eq_some_iff.mpr ⟨_, fraction_append hspells.fraction hzone, ?_⟩
    refine Option.bind_eq_some_iff.mpr ⟨_, offset_of_spells hzone, ?_⟩
    have hvalid := h.clock.date
    rw [← hdate] at hvalid
    refine (if_pos ⟨rfl, hvalid, hhour, hminute, hsecond⟩).trans ?_
    rw [instant, hdate]
  rw [Instant.read, hread, Option.some_or]

/-! ### Clocks that are ahead -/

/-- A timestamp by a clock that is some minutes ahead of another: what it shows and its offset are
later by them, and the second and its fraction are the same. -/
structure Ahead (minutes : Nat) (slow fast : Timestamp) : Prop where
  clock : fast.clock = Clock.next^[minutes] slow.clock
  offset : fast.offset = slow.offset + minutes
  second : fast.second = slow.second
  fraction : SameFraction slow.fraction fast.fraction

/-- The seconds of a timestamp's instant are its minutes by UTC and the second. -/
theorem instant_eq (timestamp : Timestamp) :
    timestamp.instant
      = ⟨60 * (timestamp.clock.toMinutes - timestamp.offset) + (min timestamp.second 59 : Nat),
        nanosecondsOf timestamp.fraction
          + (timestamp.second - min timestamp.second 59) * Instant.second⟩ := by
  rw [instant, ofClock, Clock.toMinutes]
  congr 1
  omega

/-- **Clocks that are ahead show the same instant.** -/
theorem Ahead.instant_eq {minutes : Nat} {slow fast : Timestamp} {text other : String}
    (h : slow.Ahead minutes fast) (hvalid : slow.IsValid) (hslow : slow.Spells text)
    (hfast : fast.Spells other) : fast.IsValid ∧ fast.instant = slow.instant := by
  obtain ⟨hclock, hminutes⟩ := Clock.iterate_next_spec hvalid.clock minutes
  rw [← h.clock] at hclock hminutes
  refine ⟨⟨hclock, h.second ▸ hvalid.second⟩, ?_⟩
  have hshift : slow.clock.toMinutes + minutes - (slow.offset + minutes)
      = slow.clock.toMinutes - slow.offset := by
    omega
  rw [Timestamp.instant_eq, Timestamp.instant_eq, h.second, h.offset, hminutes, hshift,
    nanosecondsOf_congr hslow.fraction hfast.fraction h.fraction]

/-! ### Literals -/

/-- An instant as a clock of UTC shows it, to the second. -/
def ofInstant (instant : Instant) : Timestamp :=
  ⟨⟨instant.date, instant.secondOfDay / 3600, instant.secondOfDay / 60 % 60⟩,
    instant.secondOfMinute, [], 0⟩

/-- The literal of an instant spells what the clock shows. -/
theorem spells_literal {instant : Instant} (hyear : instant.HasPlainYear)
    (h : instant.IsRegular) : (ofInstant instant).Spells (instant.literal ++ "Z") where
  year := hyear
  fraction := nofun
  text := by
    refine ⟨' ', by decide, ['Z'], .utc (.inl rfl), ?_⟩
    rw [String.toList_append, toList_literal hyear h]
    simp [afterYear, ofInstant]

theorem isValid_ofInstant {instant : Instant} (h : instant.IsRegular) :
    (ofInstant instant).IsValid := by
  have htime := instant.secondOfDay_lt
  have hsecond := h.secondOfMinute_lt
  refine ⟨⟨Date.isValid_ofDay _, ?_, ?_⟩, Nat.le_of_lt_succ hsecond⟩
  · change instant.secondOfDay / 3600 < 24
    omega
  · change instant.secondOfDay / 60 % 60 < 60
    omega

/-- The clock shows the whole second of the instant. -/
theorem instant_ofInstant {instant : Instant} (h : instant.IsRegular) :
    (ofInstant instant).instant = instant.truncate := by
  have hday : instant.date.toDay = instant.seconds / 86400 := Date.toDay_ofDay _
  have hminutes : (ofInstant instant).clock.toMinutes = instant.seconds / 86400 * 1440
      + (60 * (instant.secondOfDay / 3600) + instant.secondOfDay / 60 % 60 : Nat) := by
    rw [← hday]
    rfl
  have hsecond : (ofInstant instant).second = instant.secondOfMinute := rfl
  have hnanos : nanosecondsOf (ofInstant instant).fraction = 0 := Nat.zero_mul _
  have hoffset : (ofInstant instant).offset = 0 := rfl
  -- The sixtieth second is the fifty-ninth with a second of nanoseconds.
  have hshown : min instant.secondOfMinute 59 = instant.secondOfDay % 60
      ∧ instant.secondOfMinute - min instant.secondOfMinute 59
        = instant.nanoseconds / Instant.second := by
    rcases h.secondOfMinute_cases with ⟨hleap, hshown⟩ | ⟨hleap, hlast, hshown⟩
    · rw [hshown, hleap]
      omega
    · rw [hshown, hleap, hlast]
      decide
  rw [instant_eq, hminutes, hsecond, hnanos, hoffset, hshown.2, hshown.1, Nat.zero_add, truncate]
  refine congrArg (Instant.mk · _) ?_
  unfold secondOfDay
  omega

end Timestamp

/-- **A literal is read as the whole second that it was written for.** -/
theorem read_literal {instant : Instant} (hyear : instant.HasPlainYear) (h : instant.IsRegular) :
    Instant.read (instant.literal ++ "Z") = some instant.truncate := by
  rw [← Timestamp.instant_ofInstant h]
  exact Timestamp.read_of_spells (Timestamp.isValid_ofInstant h)
    (Timestamp.spells_literal hyear h)

/-- A leap second stays one without its fraction. -/
theorem isLeap_truncate (instant : Instant) :
    second ≤ instant.truncate.nanoseconds ↔ second ≤ instant.nanoseconds := by
  change second ≤ instant.nanoseconds / second * second ↔ _
  unfold second
  omega

end EntityQuery.Instant

namespace EntityQuery

open Instant (Clock Timestamp)

/-! ## Literals and instants -/

/-- **Literals denote the instants that were read.**  A literal with the mark of UTC is read as the
whole second of the instant it was written for, a leap second as a leap second, and is written for
that again.  And timestamps by clocks of which one is some minutes ahead, in what it shows and in
its offset, are read as one instant. -/
theorem literals_denote_instants (dialect : Dialect) :
    (∀ text instant, Instant.read text = some instant → instant.HasPlainYear →
      ∃ literal, (Scalar.instant instant).toValue dialect = .ok (.text literal)
        ∧ Instant.read (literal ++ "Z") = some instant.truncate
        ∧ (Instant.second ≤ instant.truncate.nanoseconds
          ↔ Instant.second ≤ instant.nanoseconds)
        ∧ (Scalar.instant instant.truncate).toValue dialect = .ok (.text literal))
    ∧ ∀ (minutes : Nat) (slow fast : Timestamp) (text other : String), slow.IsValid →
      slow.Ahead minutes fast → slow.Spells text → fast.Spells other →
      ∃ instant literal, Instant.read text = some instant ∧ Instant.read other = some instant
        ∧ (Scalar.instant instant).toValue dialect = .ok (.text literal) := by
  refine ⟨fun text instant hread hyear => ?_, fun minutes slow fast text other hvalid hahead hslow
    hfast => ?_⟩
  · have hregular := Instant.isRegular_of_read hread
    refine ⟨instant.literal, rfl, Instant.read_literal hyear hregular,
      Instant.isLeap_truncate instant, ?_⟩
    rw [Scalar.toValue, Instant.literal_truncate]
  · obtain ⟨hfastValid, hinstant⟩ := hahead.instant_eq hvalid hslow hfast
    refine ⟨slow.instant, slow.instant.literal, Timestamp.read_of_spells hvalid hslow, ?_, rfl⟩
    rw [Timestamp.read_of_spells hfastValid hfast, hinstant]

/-- The leap second at the end of 2016 by the clock of UTC, and by one that is ninety minutes ahead
and in the new year already: one instant, whose literal is read as the leap second again. -/
theorem leapSecond_denoted :
    ∃ instant, Instant.read "2016-12-31T23:59:60.25Z" = some instant
      ∧ Instant.read "2017-01-01 01:29:60.250+01:30" = some instant
      ∧ (Scalar.instant instant).toValue .generic = .ok (.text "2016-12-31 23:59:60")
      ∧ Instant.read "2016-12-31 23:59:60Z" = some instant.truncate
      ∧ Instant.second ≤ instant.truncate.nanoseconds := by
  obtain ⟨hliteral, hahead⟩ := literals_denote_instants .generic
  let slow : Timestamp := ⟨⟨⟨2016, 12, 31⟩, 23, 59⟩, 60, ['2', '5'], 0⟩
  let fast : Timestamp := ⟨⟨⟨2017, 1, 1⟩, 1, 29⟩, 60, ['2', '5', '0'], 90⟩
  have hvalid : slow.IsValid := ⟨⟨by decide, by decide, by decide⟩, by decide⟩
  have hslow : slow.Spells "2016-12-31T23:59:60.25Z" :=
    ⟨by decide, List.all_eq_true.mp rfl, 'T', by decide, ['Z'], .utc (.inl rfl), by decide⟩
  have hfast : fast.Spells "2017-01-01 01:29:60.250+01:30" :=
    ⟨by decide, List.all_eq_true.mp rfl, ' ', by decide, "+01:30".toList,
      @Instant.SpellsOffset.east 1 30 (by decide) (by decide), by decide⟩
  have hworth : Nat.ofDigitChars 10 ['2', '5'] 0 * 10 ^ 3
      = Nat.ofDigitChars 10 ['2', '5', '0'] 0 * 10 ^ 2 := by decide
  have hclocks : slow.Ahead 90 fast := ⟨by decide +kernel, by decide, rfl, hworth⟩
  obtain ⟨instant, -, hread, hother, -⟩ := hahead 90 slow fast _ _ hvalid hclocks hslow hfast
  have hknown : Instant.read "2016-12-31T23:59:60.25Z" = some ⟨1483228799, 1250000000⟩ := by
    decide +kernel
  obtain rfl := Option.some.inj (hread.symm.trans hknown)
  obtain ⟨literal, htext, hagain, hleap, -⟩ :=
    hliteral _ _ hread ⟨by decide +kernel, by decide +kernel⟩
  have hwritten : Instant.literal ⟨1483228799, 1250000000⟩ = "2016-12-31 23:59:60" := by
    decide +kernel
  obtain rfl : "2016-12-31 23:59:60" = literal :=
    hwritten.symm.trans (Sql.Value.text.inj (Except.ok.inj htext))
  exact ⟨_, hread, hother, htext, hagain, hleap.mpr (by decide)⟩

end EntityQuery
