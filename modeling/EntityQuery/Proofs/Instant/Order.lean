import EntityQuery.Instant.Reader
import EntityQuery.Proofs.Filter.Meaning
import EntityQuery.Proofs.Instant.Literal
import EntityQuery.Proofs.Json.Numeral

/-!
# Proofs/Instant/Order — dates that are bound as texts are compared as dates

Reading gives regular instants only (`isRegular_of_read`): an offset is a whole number of minutes,
so a leap second ends a minute of UTC too.  With that, literals sort as the instants that they stand
for, and a range over a column of literals holds what lies between its dates
(`literals_sort_as_instants`).
-/

namespace EntityQuery

open Sql (Database Expr Scope)

namespace Instant

/-! ## What is read is regular -/

/-- A fraction is less than a second, however many digits it has. -/
theorem nanosecondsOf_lt {digits : List Char} (h : ∀ c ∈ digits, c.isDigit = true) :
    nanosecondsOf digits < second := by
  have hkept := Numeral.ofDigitChars_lt fun c hc => h c (List.mem_of_mem_take (i := 9) hc)
  have hlength : (digits.take 9).length ≤ 9 := List.length_take_le 9 digits
  have hsplit : 10 ^ (digits.take 9).length * 10 ^ (9 - (digits.take 9).length) = second := by
    rw [← Nat.pow_add, Nat.add_sub_cancel' hlength]
    rfl
  rw [nanosecondsOf, ← hsplit]
  exact Nat.mul_lt_mul_of_pos_right hkept (Nat.pow_pos (by decide))

theorem fraction_lt {cs rest : List Char} {nanos : Nat} (h : fraction cs = some (nanos, rest)) :
    nanos < second := by
  unfold fraction at h
  split at h
  · rename_i digits
    simp only [Option.ite_none_left_eq_some, Option.some.injEq, Prod.mk.injEq] at h
    obtain ⟨-, rfl, -⟩ := h
    exact nanosecondsOf_lt fun c hc => List.all_eq_true.mp List.all_takeWhile c hc
  · obtain ⟨rfl, -⟩ := Prod.mk.inj (Option.some.inj h)
    exact (by decide : 0 < second)

/-- **A clock reading is a regular instant**, whatever the offset is. -/
theorem isRegular_ofClock (date : Calendar.Date) {hour minute sec nanos : Nat} (offset : Int)
    (hsec : sec ≤ 60) (hnanos : nanos < second) :
    (ofClock date hour minute sec nanos offset).IsRegular := by
  unfold second at hnanos
  constructor
  · change nanos + (sec - min sec 59) * second < 2 * second
    unfold second
    omega
  · intro hleap
    change second ≤ nanos + (sec - min sec 59) * second at hleap
    change (date.toDay * 86400 + (3600 * hour + 60 * minute + min sec 59 : Nat) - 60 * offset) % 60
      = 59
    unfold second at hleap
    omega

/-- An instant that is read off a timestamp is regular. -/
theorem isRegular_of_readTimestamp {cs : List Char} {instant : Instant}
    (h : readTimestamp cs = some instant) : instant.IsRegular := by
  unfold readTimestamp at h
  -- From the year to the minute, a mark follows each number.
  iterate 5
    obtain ⟨⟨_, _⟩, -, h⟩ := Option.bind_eq_some_iff.mp h
    obtain ⟨_, -, h⟩ := Option.bind_eq_some_iff.mp h
  obtain ⟨⟨_, _⟩, -, h⟩ := Option.bind_eq_some_iff.mp h
  obtain ⟨⟨_, _⟩, hfraction, h⟩ := Option.bind_eq_some_iff.mp h
  obtain ⟨⟨_, _⟩, -, h⟩ := Option.bind_eq_some_iff.mp h
  obtain ⟨⟨-, -, -, -, hsec⟩, h⟩ := Option.ite_none_right_eq_some.mp h
  obtain rfl := Option.some.inj h
  exact isRegular_ofClock _ _ hsec (fraction_lt hfraction)

/-- An instant that is read off a date is regular. -/
theorem isRegular_of_readDate {cs : List Char} {instant : Instant}
    (h : readDate cs = some instant) : instant.IsRegular := by
  unfold readDate at h
  iterate 2
    obtain ⟨⟨_, _⟩, -, h⟩ := Option.bind_eq_some_iff.mp h
    obtain ⟨_, -, h⟩ := Option.bind_eq_some_iff.mp h
  obtain ⟨⟨_, _⟩, -, h⟩ := Option.bind_eq_some_iff.mp h
  obtain ⟨-, h⟩ := Option.ite_none_right_eq_some.mp h
  obtain rfl := Option.some.inj h
  exact isRegular_ofClock _ _ (by decide) (by decide)

/-- **Reading gives regular instants.** -/
theorem isRegular_of_read {text : String} {instant : Instant} (h : read text = some instant) :
    instant.IsRegular := by
  rcases Option.or_eq_some_iff.mp h with htimestamp | ⟨-, hdate⟩
  · exact isRegular_of_readTimestamp htimestamp
  · exact isRegular_of_readDate hdate

/-- An instant that a text spells, in a UTC year of four digits. -/
structure IsDated (instant : Instant) : Prop where
  /-- A timestamp or a date is read as the instant. -/
  spelled : ∃ text, Instant.read text = some instant
  /-- The year is one of 0 to 9999. -/
  year : instant.HasPlainYear

theorem IsDated.isRegular {instant : Instant} (h : instant.IsDated) : instant.IsRegular := by
  obtain ⟨text, hread⟩ := h.spelled
  exact isRegular_of_read hread

/-! ## The form of a literal -/

/-- A character that a mark of a template admits: a digit for a digit, else the mark itself. -/
def Admits (mark c : Char) : Prop :=
  if mark.isDigit then c.isDigit = true else c = mark

/-- A text with digits where a template has digits, and the marks of the template elsewhere. -/
def Fits (template text : String) : Prop :=
  List.Forall₂ Admits template.toList text.toList

theorem Fits.length_eq {template text : String} (h : Fits template text) :
    text.length = template.length := by
  rw [← String.length_toList, ← String.length_toList]
  exact (List.Forall₂.length_eq h).symm

theorem admits_digits_append (width n : Nat) {marks cs : List Char}
    (h : List.Forall₂ Admits marks cs) :
    List.Forall₂ Admits (List.replicate width '0' ++ marks) (digits width n ++ cs) := by
  induction width generalizing n marks cs with
  | zero => exact h
  | succ width ih =>
    have hmem : (n % 10).digitChar ∈ digits 1 n := List.mem_singleton.mpr rfl
    have hlast : Admits '0' (n % 10).digitChar := isDigit_of_mem_digits hmem
    rw [List.replicate_succ', digits, List.append_assoc, List.append_assoc]
    exact ih (n / 10) (.cons hlast h)

/-- **A literal has nineteen characters of a fixed form.** -/
theorem literal_fits {instant : Instant} (hyear : instant.HasPlainYear) (h : instant.IsRegular) :
    Fits "0000-00-00 00:00:00" instant.literal := by
  have htemplate : "0000-00-00 00:00:00".toList
      = List.replicate 4 '0' ++ '-' :: (List.replicate 2 '0' ++ '-' :: (List.replicate 2 '0'
        ++ ' ' :: (List.replicate 2 '0' ++ ':' :: (List.replicate 2 '0' ++ ':'
          :: (List.replicate 2 '0' ++ []))))) := rfl
  have hlast := admits_digits_append 2 instant.secondOfMinute .nil
  rw [List.append_nil] at hlast
  rw [Fits, htemplate, toList_literal hyear h, afterYear]
  exact admits_digits_append _ _ (.cons rfl (admits_digits_append _ _ (.cons rfl
    (admits_digits_append _ _ (.cons rfl (admits_digits_append _ _ (.cons rfl
      (admits_digits_append _ _ (.cons rfl hlast)))))))))

/-! ## The order of dates -/

/-- **Literals are ordered byte by byte as their instants are, to the second.** -/
theorem IsDated.literal_lt_iff {first second : Instant} (h : first.IsDated)
    (hsecond : second.IsDated) :
    utf8Bytes first.literal < utf8Bytes second.literal ↔ first.truncate < second.truncate :=
  utf8Bytes_literal_lt_iff h.year hsecond.year h.isRegular hsecond.isRegular

/-- Whole seconds without an order between them are one. -/
theorem truncate_eq_of_not_lt {first second : Instant} (h : ¬ first.truncate < second.truncate)
    (h' : ¬ second.truncate < first.truncate) : first.truncate = second.truncate := by
  simp only [lt_iff, truncate] at *
  refine congrArg₂ Instant.mk ?_ ?_ <;> omega

/-- What is written of an instant is its whole second. -/
theorem literal_truncate (instant : Instant) : instant.truncate.literal = instant.literal := by
  have hnanos : instant.nanoseconds / second * second / second = instant.nanoseconds / second :=
    Nat.mul_div_cancel _ (by decide)
  simp only [literal, truncate, date, secondOfDay, hnanos]

/-- **Literals are the same exactly if their instants are, to the second.** -/
theorem IsDated.literal_eq_iff {first second : Instant} (h : first.IsDated)
    (hsecond : second.IsDated) :
    first.literal = second.literal ↔ first.truncate = second.truncate := by
  constructor
  · intro heq
    have hirrefl : ¬ utf8Bytes second.literal < utf8Bytes second.literal := List.lt_irrefl _
    refine truncate_eq_of_not_lt ?_ ?_
    · rw [← h.literal_lt_iff hsecond, heq]
      exact hirrefl
    · rw [← hsecond.literal_lt_iff h, heq]
      exact hirrefl
  · intro heq
    rw [← literal_truncate first, heq, literal_truncate]

end Instant

/-! ## Ranges of dates -/

/-- A database that compares texts byte by byte. -/
def Sql.Database.SortsTexts {D : Type} (db : Database D) : Prop :=
  ∀ first second : String,
    (db.compare .greater (db.bound (.text first)) (db.bound (.text second)) = .yes
        ↔ utf8Bytes second < utf8Bytes first)
      ∧ (db.compare .less (db.bound (.text first)) (db.bound (.text second)) = .yes
        ↔ utf8Bytes first < utf8Bytes second)

section Range

variable {D : Type} {db : Database D} {cell : Instant}

/-- The bounds of a range of dates, as they are bound. -/
def dateBounds (above below : Option Instant) : List (Sql.Comparison × Sql.Value) :=
  above.toList.map (fun bound => (.greater, .text bound.literal))
    ++ below.toList.map (fun bound => (.less, .text bound.literal))

/-- A range of dates asks for its bounds, each bound as a literal. -/
theorem Condition.expr?_range (dialect : Dialect) (column : Expr) (above below : Option Instant) :
    (Condition.range (above.map .instant) (below.map .instant)).expr? dialect column
      = .ok (if above.isNone ∧ below.isNone then none
          else some ((Criterion.range false (dateBounds above below)).expr column)) := by
  rcases above with _ | above <;> rcases below with _ | below <;> rfl

/-- A date in a range of dates, where texts are compared byte by byte. -/
theorem truth_dateBounds (hdb : db.SortsTexts) (hcell : cell.IsDated) {above below : Option Instant}
    (habove : ∀ bound ∈ above, bound.IsDated) (hbelow : ∀ bound ∈ below, bound.IsDated) :
    ((Criterion.range false (dateBounds above below)).map db.bound).truth db
        (db.bound (.text cell.literal)) = .yes
      ↔ (∀ bound ∈ above, bound.truncate < cell.truncate)
        ∧ ∀ bound ∈ below, cell.truncate < bound.truncate := by
  have hgreater : ∀ bound ∈ above, db.compare .greater (db.bound (.text cell.literal))
      (db.bound (.text bound.literal)) = .yes ↔ bound.truncate < cell.truncate := fun bound h =>
    (hdb _ _).1.trans ((habove bound h).literal_lt_iff hcell)
  have hless : ∀ bound ∈ below, db.compare .less (db.bound (.text cell.literal))
      (db.bound (.text bound.literal)) = .yes ↔ cell.truncate < bound.truncate := fun bound h =>
    (hdb _ _).2.trans (hcell.literal_lt_iff (hbelow bound h))
  rw [Criterion.map, Criterion.truth, Sql.Truth.negateIf, if_neg (by decide), Sql.Truth.all_eq_yes,
    dateBounds]
  simp only [List.map_append, List.map_map, List.forall_mem_append, List.forall_mem_map,
    Function.comp_apply, Option.mem_toList]
  exact and_congr (forall₂_congr hgreater) (forall₂_congr hless)

/-- **A range of dates holds of a column of literals exactly where the dates do.** -/
theorem Condition.truth_range (hdb : db.SortsTexts) {scope : Scope D} {column : Expr}
    (hcolumn : column.cell? db scope = some (db.bound (.text cell.literal))) (hcell : cell.IsDated)
    (dialect : Dialect) {above below : Option Instant} (habove : ∀ bound ∈ above, bound.IsDated)
    (hbelow : ∀ bound ∈ below, bound.IsDated) :
    ∃ condition truth,
      (Condition.range (above.map .instant) (below.map .instant)).expr? dialect column
          = .ok condition
        ∧ Sql.conditionTruth? db scope condition = some truth
        ∧ (truth = .yes ↔ (∀ bound ∈ above, bound.truncate < cell.truncate)
          ∧ ∀ bound ∈ below, cell.truncate < bound.truncate) := by
  rw [Condition.expr?_range]
  split
  · rename_i hnone
    obtain ⟨rfl, rfl⟩ : above = none ∧ below = none := by simpa using hnone
    exact ⟨none, .yes, rfl, rfl, by simp⟩
  · exact ⟨_, _, rfl, Criterion.truth?_expr db scope hcolumn _,
      truth_dateBounds hdb hcell habove hbelow⟩

end Range

/-! ## Dates in the order of their literals -/

/-- **Dates that are bound as texts sort as dates.**  Two dates are bound as texts of one form, the
texts compare byte by byte as the whole seconds of the dates do, and they are equal for the same
second only.  So a range of dates over a column of such texts holds what lies between. -/
theorem literals_sort_as_instants {first second : Instant} (hfirst : first.IsDated)
    (hsecond : second.IsDated) (dialect : Dialect) :
    (∃ text other : String,
      (Scalar.instant first).toValue dialect = .ok (.text text)
        ∧ (Scalar.instant second).toValue dialect = .ok (.text other)
        ∧ (Instant.Fits "0000-00-00 00:00:00" text ∧ text.length = 19)
        ∧ (Instant.Fits "0000-00-00 00:00:00" other ∧ other.length = 19)
        ∧ (utf8Bytes text < utf8Bytes other ↔ first.truncate < second.truncate)
        ∧ (text = other ↔ first.truncate = second.truncate))
      ∧ ∀ {D : Type} {db : Database D} {scope : Scope D} {column : Expr}, db.SortsTexts →
        column.cell? db scope = some (db.bound (.text first.literal)) →
        ∀ above below : Option Instant, (∀ bound ∈ above, bound.IsDated) →
          (∀ bound ∈ below, bound.IsDated) →
          ∃ condition truth,
            (Condition.range (above.map .instant) (below.map .instant)).expr? dialect column
                = .ok condition
              ∧ Sql.conditionTruth? db scope condition = some truth
              ∧ (truth = .yes ↔ (∀ bound ∈ above, bound.truncate < first.truncate)
                ∧ ∀ bound ∈ below, first.truncate < bound.truncate) := by
  have hform := Instant.literal_fits hfirst.year hfirst.isRegular
  have hform' := Instant.literal_fits hsecond.year hsecond.isRegular
  refine ⟨⟨first.literal, second.literal, rfl, rfl, ⟨hform, hform.length_eq⟩,
    ⟨hform', hform'.length_eq⟩, hfirst.literal_lt_iff hsecond, hfirst.literal_eq_iff hsecond⟩, ?_⟩
  intro D db scope column hdb hcolumn above below habove hbelow
  exact Condition.truth_range hdb hcolumn hfirst dialect habove hbelow

/-- A database of texts without any rows, which compares them byte by byte. -/
def byteByByte : Database Sql.Value where
  rows _ := []
  bound := id
  compare
    | .greater, .text first, .text second =>
        if utf8Bytes second < utf8Bytes first then .yes else .no
    | .less, .text first, .text second =>
        if utf8Bytes first < utf8Bytes second then .yes else .no
    | _, _, _ => .unknown

/-- Its comparisons are those of the bytes. -/
theorem byteByByte_sortsTexts : byteByByte.SortsTexts := by
  refine fun first second => ⟨?_, ?_⟩
  · change (if utf8Bytes second < utf8Bytes first then _ else _) = _ ↔ _
    split <;> simp [*]
  · change (if utf8Bytes first < utf8Bytes second then _ else _) = _ ↔ _
    split <;> simp [*]

/-- The leap second at the end of 2016 by a clock an hour ahead comes before the new year by a clock
half an hour behind, which has not begun there; so a visit at that second is found before it. -/
theorem leapSecond_before_newYear :
    ∃ leapSecond newYear : Instant,
      Instant.read "2017-01-01T00:59:60.5+01:00" = some leapSecond
        ∧ Instant.read "2016-12-31 23:30:00-00:30" = some newYear
        ∧ leapSecond.literal = "2016-12-31 23:59:60" ∧ newYear.literal = "2017-01-01 00:00:00"
        ∧ leapSecond.truncate < newYear.truncate
        ∧ utf8Bytes leapSecond.literal < utf8Bytes newYear.literal
        ∧ ∃ condition, (Condition.range none (some (.instant newYear))).expr? .generic
              (.column ⟨"visit", "since"⟩) = .ok condition
          ∧ Sql.conditionTruth? byteByByte [("visit", fun _ => .text leapSecond.literal)] condition
            = some .yes := by
  have hleap : Instant.read "2017-01-01T00:59:60.5+01:00" = some ⟨1483228799, 1500000000⟩ := by
    decide +kernel
  have hnew : Instant.read "2016-12-31 23:30:00-00:30" = some ⟨1483228800, 0⟩ := by
    decide +kernel
  have hfirst : (⟨1483228799, 1500000000⟩ : Instant).IsDated :=
    ⟨⟨_, hleap⟩, by decide +kernel, by decide +kernel⟩
  have hsecond : (⟨1483228800, 0⟩ : Instant).IsDated :=
    ⟨⟨_, hnew⟩, by decide +kernel, by decide +kernel⟩
  have hearlier : (⟨1483228799, 1500000000⟩ : Instant).truncate
      < (⟨1483228800, 0⟩ : Instant).truncate := .inl (by decide)
  obtain ⟨⟨text, other, htext, hother, -, -, horder, -⟩, hrange⟩ :=
    literals_sort_as_instants hfirst hsecond .generic
  obtain rfl := Sql.Value.text.inj (Except.ok.inj htext)
  obtain rfl := Sql.Value.text.inj (Except.ok.inj hother)
  obtain ⟨condition, truth, hcondition, htruth, hyes⟩ := hrange byteByByte_sortsTexts
    (show Expr.cell? byteByByte [("visit", fun _ => .text _)] (.column ⟨"visit", "since"⟩) = _
      from rfl) none (some ⟨1483228800, 0⟩) nofun (by simpa using hsecond)
  have hbetween : truth = .yes := hyes.mpr ⟨nofun, by simpa using hearlier⟩
  exact ⟨_, _, hleap, hnew, by decide +kernel, by decide +kernel, hearlier, horder.mpr hearlier,
    condition, hcondition, hbetween ▸ htruth⟩

end EntityQuery
