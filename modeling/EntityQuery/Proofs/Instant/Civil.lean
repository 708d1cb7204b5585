import EntityQuery.Proofs.Instant.Calendar

/-!
# Proofs/Instant/Civil — dates and days are numbered alike

    day            n      ⟼   n + 1
                   ↕            ↕
    date         d.m.y    ⟼  the next one

A valid date is a day of one of the months of its year (`Date.InMonth`), and its number adds up the
months before that one (`Date.InMonth.toDay_eq`).  A walk through the months stops at exactly such a
day, so the date of a day has the number of the day (`Date.toDay_ofDay`), and the civil rule for the
next day, with its ends of months and years, is adding one (`Date.next_spec`).
-/

namespace EntityQuery.Calendar.Date

/-! ## Days of months -/

/-- A day of a month of its year, with the lengths of the months before and after. -/
structure InMonth (date : Date) (before : List Nat) (length : Nat) (after : List Nat) : Prop where
  months : monthLengths (isLeap date.year) = before ++ length :: after
  month : date.month = before.length + 1
  one_le : 1 ≤ date.day
  le_length : date.day ≤ length

variable {date : Date} {before after : List Nat} {length : Nat}

/-- A date is valid exactly if it is a day of a month. -/
theorem isValid_iff :
    date.isValid = true ↔ ∃ before length after, date.InMonth before length after := by
  rw [isValid, Bool.and_eq_true, decide_eq_true_eq]
  constructor
  · rintro ⟨⟨hmonth, hday⟩, hlength⟩
    split at hlength
    · rename_i length hfound
      obtain ⟨hindex, hfound⟩ := List.getElem?_eq_some_iff.mp hfound
      refine ⟨(monthLengths (isLeap date.year)).take (date.month - 1), length,
        (monthLengths (isLeap date.year)).drop (date.month - 1 + 1), ?_, ?_, hday,
        of_decide_eq_true hlength⟩
      · rw [← hfound, ← List.drop_eq_getElem_cons hindex, List.take_append_drop]
      · rw [List.length_take_of_le (Nat.le_of_lt hindex)]
        omega
    · exact nomatch hlength
  · rintro ⟨before, length, after, h⟩
    have hfound : (monthLengths (isLeap date.year))[date.month - 1]? = some length := by
      rw [h.months, h.month, Nat.add_sub_cancel, List.getElem?_append_right (Nat.le_refl _),
        Nat.sub_self, List.getElem?_cons_zero]
    rw [hfound]
    exact ⟨⟨h.month ▸ Nat.le_add_left 1 _, h.one_le⟩, decide_eq_true h.le_length⟩

/-- The months before, this one and the months after are twelve. -/
theorem InMonth.count (h : date.InMonth before length after) :
    date.month + after.length = 12 := by
  have hcount := length_monthLengths (isLeap date.year)
  rw [h.months, List.length_append, List.length_cons] at hcount
  have hmonth := h.month
  omega

/-- The month and the day of a valid date have two digits at most. -/
theorem bounds_of_isValid (h : date.isValid = true) : date.month ≤ 12 ∧ date.day ≤ 31 := by
  obtain ⟨before, length, after, h⟩ := isValid_iff.mp h
  have hlength : length ∈ monthLengths (isLeap date.year) :=
    h.months ▸ List.mem_append_right _ List.mem_cons_self
  exact ⟨h.count ▸ Nat.le_add_right date.month after.length,
    Nat.le_trans h.le_length (bounds_of_mem_monthLengths hlength).2⟩

/-- **The number of a date adds up its year, the months before, and the day.** -/
theorem InMonth.toDay_eq (h : date.InMonth before length after) :
    date.toDay = daysBeforeYear date.year + before.sum + date.day - 1 - epoch := by
  have hbefore : daysBeforeMonth (isLeap date.year) date.month = before.sum := by
    rw [daysBeforeMonth, h.months, h.month, Nat.add_sub_cancel, List.take_left']
    · rfl
    · rfl
  rw [toDay, hbefore]

/-- A year is as long as its months. -/
theorem daysBeforeYear_succ_eq (year : Int) :
    daysBeforeYear (year + 1) = daysBeforeYear year + ((monthLengths (isLeap year)).sum : Nat) := by
  rw [daysBeforeYear_succ, sum_monthLengths]
  split <;> rfl

/-! ## There and back -/

/-- A walk that ends among the months ends in one of them, with all days counted. -/
theorem walk_spec (month : Nat) {rest : Nat} {lengths : List Nat} (h : rest < lengths.sum) :
    ∃ before length after, lengths = before ++ length :: after
      ∧ (walk month rest lengths).1 = month + before.length
      ∧ before.sum + (walk month rest lengths).2 = rest + 1
      ∧ 1 ≤ (walk month rest lengths).2 ∧ (walk month rest lengths).2 ≤ length := by
  induction lengths generalizing month rest with
  | nil => exact absurd h (Nat.not_lt_zero rest)
  | cons first lengths ih =>
    rw [List.sum_cons] at h
    by_cases hrest : rest < first
    · refine ⟨[], first, lengths, rfl, ?_⟩
      simp only [walk, if_pos hrest, List.length_nil, List.sum_nil]
      omega
    · obtain ⟨before, length, after, rfl, hmonth, hsum, hday, hlength⟩ :=
        @ih (month + 1) (rest - first) (by omega)
      refine ⟨first :: before, length, after, rfl, ?_⟩
      simp only [walk, if_neg hrest, List.length_cons, List.sum_cons]
      omega

/-- The date of a day lies in a month of its year. -/
theorem inMonth_ofDay (day : Int) : ∃ before length after,
    (ofDay day).InMonth before length after
      ∧ before.sum + (ofDay day).day = dayOfYear day + 1 := by
  obtain ⟨before, length, after, hmonths, hmonth, hsum, hday, hlength⟩ :=
    walk_spec 1 (dayOfYear_lt day)
  rw [ofDay_eq]
  exact ⟨before, length, after, ⟨hmonths, hmonth.trans (Nat.add_comm ..), hday, hlength⟩, hsum⟩

/-- The date of a day is valid. -/
theorem isValid_ofDay (day : Int) : (ofDay day).isValid = true := by
  obtain ⟨before, length, after, h, -⟩ := inMonth_ofDay day
  exact isValid_iff.mpr ⟨before, length, after, h⟩

/-- **The date of a day has the number of the day.** -/
theorem toDay_ofDay (day : Int) : (ofDay day).toDay = day := by
  obtain ⟨before, length, after, h, hsum⟩ := inMonth_ofDay day
  have hyear : (ofDay day).year = yearOf (day + epoch) := rfl
  have hbefore := (yearOf_spec (day + epoch)).1
  rw [h.toDay_eq, hyear]
  unfold dayOfYear at hsum
  omega

/-! ## The next day -/

/-- The length of a date's month. -/
def monthLength (date : Date) : Nat :=
  (monthLengths (isLeap date.year)).getD (date.month - 1) 0

/-- The day after a date: the next one of the month, or the first of the next month or year. -/
def next (date : Date) : Date :=
  if date.day < date.monthLength then ⟨date.year, date.month, date.day + 1⟩
  else if date.month < 12 then ⟨date.year, date.month + 1, 1⟩
  else ⟨date.year + 1, 1, 1⟩

theorem InMonth.monthLength_eq (h : date.InMonth before length after) :
    date.monthLength = length := by
  rw [monthLength, h.months, h.month, Nat.add_sub_cancel]
  simp

theorem InMonth.within (h : date.InMonth before length after) (hday : date.day < length) :
    InMonth ⟨date.year, date.month, date.day + 1⟩ before length after :=
  ⟨h.months, h.month, Nat.le_add_left 1 _, hday⟩

theorem InMonth.turn {other : Nat} {rest : List Nat}
    (h : date.InMonth before length (other :: rest)) :
    InMonth ⟨date.year, date.month + 1, 1⟩ (before ++ [length]) other rest where
  months := by rw [h.months, List.append_assoc, List.singleton_append]
  month := by rw [h.month, List.length_append, List.length_singleton]
  one_le := Nat.le_refl 1
  le_length := by
    have hother : other ∈ monthLengths (isLeap date.year) := by
      rw [h.months]
      simp
    exact (bounds_of_mem_monthLengths hother).1

theorem inMonth_newYear (year : Int) :
    InMonth ⟨year, 1, 1⟩ [] 31 (monthLengths (isLeap year)).tail :=
  ⟨rfl, rfl, Nat.le_refl 1, Nat.le_add_left 1 30⟩

/-- The day after a day of a month is a day of a month, and its number is the next one. -/
theorem InMonth.next (h : date.InMonth before length after) :
    ∃ before length after, date.next.InMonth before length after
      ∧ date.next.toDay = date.toDay + 1 := by
  have hcount := h.count
  have hday := h.le_length
  rw [Date.next, h.monthLength_eq, h.toDay_eq]
  split
  · rename_i hwithin
    refine ⟨_, _, _, h.within hwithin, ?_⟩
    rw [(h.within hwithin).toDay_eq]
    dsimp only
    omega
  · split
    · obtain _ | ⟨other, rest⟩ := after
      · rw [List.length_nil] at hcount
        omega
      refine ⟨_, _, _, h.turn, ?_⟩
      rw [h.turn.toDay_eq, List.sum_append, List.sum_singleton]
      dsimp only
      omega
    · obtain rfl : after = [] := List.eq_nil_of_length_eq_zero (by omega)
      refine ⟨_, _, _, inMonth_newYear (date.year + 1), ?_⟩
      rw [(inMonth_newYear (date.year + 1)).toDay_eq, daysBeforeYear_succ_eq, h.months,
        List.sum_append, List.sum_singleton, List.sum_nil]
      dsimp only
      omega

/-- **The day after a valid date is valid, and its number is the next one.** -/
theorem next_spec (h : date.isValid = true) :
    date.next.isValid = true ∧ date.next.toDay = date.toDay + 1 := by
  obtain ⟨before, length, after, h⟩ := isValid_iff.mp h
  obtain ⟨before, length, after, hnext, hday⟩ := h.next
  exact ⟨isValid_iff.mpr ⟨before, length, after, hnext⟩, hday⟩

end EntityQuery.Calendar.Date
