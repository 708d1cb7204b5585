/-!
# Instant/Calendar — days of the Gregorian calendar

A date is a year, a month and a day, and a day number counts days from the first of January 1970.
`Date.toDay` adds up the days of the years, months and days before the date; `Date.ofDay` looks for
the year whose days contain the number and then walks through its months. The calendar runs
backwards without a gap, and the year before year one is year zero.
-/

namespace EntityQuery.Calendar

/-- A year, a month and a day. -/
structure Date where
  year : Int
  month : Nat
  day : Nat
  deriving DecidableEq, Repr

/-- Every fourth year is a leap year, a full century only every fourth time. -/
def isLeap (year : Int) : Bool :=
  decide (year % 4 = 0 ∧ (year % 100 ≠ 0 ∨ year % 400 = 0))

/-- The lengths of the months. -/
def monthLengths (leap : Bool) : List Nat :=
  [31, if leap then 29 else 28, 31, 30, 31, 30, 31, 31, 30, 31, 30, 31]

/-- The days of a year before a month. -/
def daysBeforeMonth (leap : Bool) (month : Nat) : Nat :=
  ((monthLengths leap).take (month - 1)).foldr (· + ·) 0

/-- The days from the first of January of year one to that of a year. -/
def daysBeforeYear (year : Int) : Int :=
  365 * (year - 1) + (year - 1) / 4 - (year - 1) / 100 + (year - 1) / 400

/-- The days from the first of January of year one to that of 1970. -/
def epoch : Int := 719162

namespace Date

/-- Whether the month has the day. -/
def isValid (date : Date) : Bool :=
  decide (1 ≤ date.month ∧ 1 ≤ date.day) &&
    match (monthLengths (isLeap date.year))[date.month - 1]? with
    | some length => decide (date.day ≤ length)
    | none => false

/-- The day number of a date. -/
def toDay (date : Date) : Int :=
  daysBeforeYear date.year + daysBeforeMonth (isLeap date.year) date.month + date.day - 1 - epoch

/-- The month and the day that so many days after the first of a month are, `month` being the month
whose length comes first. -/
def walk (month rest : Nat) : List Nat → Nat × Nat
  | [] => (month, rest + 1)
  | length :: lengths =>
      if rest < length then (month, rest + 1) else walk (month + 1) (rest - length) lengths

/-- The year of the day that lies so many days after the first of January of year one. -/
def yearOf (days : Int) : Int :=
  let guess := days * 400 / 146097 + 1
  if days < daysBeforeYear guess then guess - 1
  else if daysBeforeYear (guess + 1) ≤ days then guess + 1
  else guess

/-- The date of a day number. -/
def ofDay (day : Int) : Date :=
  let days := day + epoch
  let year := yearOf days
  let (month, day) := walk 1 (days - daysBeforeYear year).toNat (monthLengths (isLeap year))
  ⟨year, month, day⟩

end Date

end EntityQuery.Calendar
