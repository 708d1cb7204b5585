import EntityQuery.Instant.Calendar
import Mathlib.Algebra.Ring.Nat

/-!
# Proofs/Instant/Calendar — later days have later dates

Dates are ordered by year, then month, then day (`Date.Before`).  The main statement is
`Date.ofDay_before`: the date of a later day comes later.  Two inputs, one for each half of
`Date.ofDay` — `yearOf_spec`, that the year looked for is the one whose days contain the day, and
`walk_before`, that a walk through the months of one year gets further with more days.
-/

namespace EntityQuery.Calendar

/-! ## Years -/

/-- Later years begin on later days. -/
theorem daysBeforeYear_mono {first second : Int} (h : first ≤ second) :
    daysBeforeYear first ≤ daysBeforeYear second := by
  unfold daysBeforeYear
  omega

/-- The length of a year. -/
theorem daysBeforeYear_succ (year : Int) :
    daysBeforeYear (year + 1) = daysBeforeYear year + if isLeap year then 366 else 365 := by
  unfold daysBeforeYear isLeap
  split <;> rename_i hleap <;> simp only [decide_eq_true_eq] at hleap <;> omega

theorem sum_monthLengths (leap : Bool) :
    (monthLengths leap).sum = if leap then 366 else 365 := by
  cases leap <;> rfl

theorem length_monthLengths (leap : Bool) : (monthLengths leap).length = 12 := by
  cases leap <;> rfl

theorem bounds_of_mem_monthLengths {leap : Bool} {length : Nat} (h : length ∈ monthLengths leap) :
    1 ≤ length ∧ length ≤ 31 := by
  have hall : ∀ leap, ∀ length ∈ monthLengths leap, 1 ≤ length ∧ length ≤ 31 := by decide
  exact hall leap length h

namespace Date

/-- **The year of a day is the one whose days contain it.**  The guess is off by one at most. -/
theorem yearOf_spec (days : Int) :
    daysBeforeYear (yearOf days) ≤ days ∧ days < daysBeforeYear (yearOf days + 1) := by
  have hbefore : daysBeforeYear (days * 400 / 146097 + 1 - 1) ≤ days := by
    unfold daysBeforeYear
    omega
  have hafter : days < daysBeforeYear (days * 400 / 146097 + 1 + 1 + 1) := by
    unfold daysBeforeYear
    omega
  simp only [yearOf]
  split
  · rename_i hlow
    exact ⟨hbefore, by rwa [Int.sub_add_cancel]⟩
  · split
    · rename_i hhigh
      exact ⟨hhigh, hafter⟩
    · rename_i hlow hhigh
      exact ⟨Int.not_lt.mp hlow, Int.not_le.mp hhigh⟩

/-- Later days lie in later years, or in the same. -/
theorem yearOf_mono {first second : Int} (h : first ≤ second) : yearOf first ≤ yearOf second := by
  refine Int.not_lt.mp fun hgreater => ?_
  have hyears : daysBeforeYear (yearOf second + 1) ≤ daysBeforeYear (yearOf first) :=
    daysBeforeYear_mono hgreater
  have hfirst := (yearOf_spec first).1
  have hsecond := (yearOf_spec second).2
  omega

/-! ## Months and days -/

/-- Earlier in the calendar. -/
def Before (first second : Date) : Prop :=
  first.year < second.year ∨ first.year = second.year ∧
    (first.month < second.month ∨ first.month = second.month ∧ first.day < second.day)

theorem eq_iff {first second : Date} : first = second ↔ first.year = second.year
    ∧ first.month = second.month ∧ first.day = second.day := by
  cases first
  cases second
  simp

theorem Before.irrefl (date : Date) : ¬ date.Before date := by
  unfold Before
  omega

theorem Before.asymm {first second : Date} (h : first.Before second) : ¬ second.Before first := by
  unfold Before at *
  omega

/-- A walk over the lengths of months ends in the month it begins in or a later one. -/
theorem month_le_walk (month rest : Nat) (lengths : List Nat) :
    month ≤ (walk month rest lengths).1 := by
  fun_induction walk month rest lengths with
  | case1 => exact Nat.le_refl _
  | case2 => exact Nat.le_refl _
  | case3 _ _ _ _ _ ih => omega

/-- A walk gets further with more days. -/
theorem walk_before {month rest other : Nat} {lengths : List Nat} (h : rest < other) :
    (walk month rest lengths).1 < (walk month other lengths).1 ∨
      (walk month rest lengths).1 = (walk month other lengths).1 ∧
        (walk month rest lengths).2 < (walk month other lengths).2 := by
  induction lengths generalizing month rest other with
  | nil => exact .inr ⟨rfl, Nat.succ_lt_succ h⟩
  | cons length lengths ih =>
    by_cases hother : other < length
    · have hrest : rest < length := Nat.lt_trans h hother
      simp only [walk, if_pos hrest, if_pos hother]
      exact .inr ⟨trivial, Nat.succ_lt_succ h⟩
    · by_cases hrest : rest < length
      · have hlater := month_le_walk (month + 1) (other - length) lengths
        simp only [walk, if_pos hrest, if_neg hother]
        exact .inl hlater
      · simp only [walk, if_neg hrest, if_neg hother]
        exact ih (by omega)

/-! ## Dates -/

/-- The days of a day in its year, from none on. -/
def dayOfYear (day : Int) : Nat :=
  (day + epoch - daysBeforeYear (yearOf (day + epoch))).toNat

theorem ofDay_eq (day : Int) :
    ofDay day = ⟨yearOf (day + epoch),
      (walk 1 (dayOfYear day) (monthLengths (isLeap (yearOf (day + epoch))))).1,
      (walk 1 (dayOfYear day) (monthLengths (isLeap (yearOf (day + epoch))))).2⟩ := rfl

/-- The days of a day's year that lie before it are fewer than the year has. -/
theorem dayOfYear_lt (day : Int) :
    dayOfYear day < (monthLengths (isLeap (yearOf (day + epoch)))).sum := by
  obtain ⟨hbefore, hafter⟩ := yearOf_spec (day + epoch)
  rw [daysBeforeYear_succ] at hafter
  rw [sum_monthLengths, dayOfYear]
  split <;> rename_i hleap <;>
    simp only [hleap, Bool.false_eq_true, if_true, if_false] at hafter <;> omega

/-- **The date of a later day comes later.** -/
theorem ofDay_before {first second : Int} (h : first < second) :
    (ofDay first).Before (ofDay second) := by
  have hyears : yearOf (first + epoch) ≤ yearOf (second + epoch) := yearOf_mono (by omega)
  rw [ofDay_eq, ofDay_eq]
  rcases Int.lt_or_eq_of_le hyears with hlater | hsame
  · exact .inl hlater
  · have hfirst := (yearOf_spec (first + epoch)).1
    have hdays : dayOfYear first < dayOfYear second := by
      rw [dayOfYear, dayOfYear, ← hsame]
      omega
    rw [← hsame]
    exact .inr ⟨rfl, walk_before hdays⟩

/-- **Dates come in the order of their days.** -/
theorem ofDay_before_iff {first second : Int} :
    (ofDay first).Before (ofDay second) ↔ first < second := by
  refine ⟨fun h => ?_, ofDay_before⟩
  rcases Int.lt_trichotomy first second with hlt | rfl | hgt
  · exact hlt
  · exact absurd h (Before.irrefl _)
  · exact absurd h (ofDay_before hgt).asymm

theorem ofDay_injective {first second : Int} (h : ofDay first = ofDay second) :
    first = second := by
  rcases Int.lt_trichotomy first second with hlt | heq | hgt
  · exact absurd (h ▸ ofDay_before hlt) (Before.irrefl _)
  · exact heq
  · exact absurd (h ▸ ofDay_before hgt) (Before.irrefl _)

end Date

end EntityQuery.Calendar
