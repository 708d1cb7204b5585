import EntityQuery.Instant.Calendar

/-!
# Instant/Basic — instants and their literals

An instant is a number of seconds since the first of January 1970, midnight UTC, and a number of
nanoseconds. A leap second has the seconds of the second before it and a thousand million
nanoseconds or more. `Instant.literal` writes the UTC date and the time to the second, and a leap
second as the sixtieth.
-/

namespace EntityQuery

/-- A point in time, in UTC. -/
structure Instant where
  /-- Seconds since the first of January 1970, leap seconds not counted. -/
  seconds : Int
  /-- Nanoseconds within the second; a thousand million or more in a leap second. -/
  nanoseconds : Nat
  deriving DecidableEq, Repr

namespace Instant

/-- The nanoseconds of a second. -/
def second : Nat := 1000000000

/-- The decimal digits of a number, with zeros in front up to a width. -/
def padded (width n : Nat) : String :=
  let digits := Nat.toDigits 10 n
  String.ofList (List.replicate (width - digits.length) '0' ++ digits)

/-- A year: four digits or more, with a sign outside the years 0 to 9999. -/
def yearText (year : Int) : String :=
  let sign := if year < 0 then "-" else if 9999 < year then "+" else ""
  sign ++ padded 4 year.natAbs

/-- The date of an instant. -/
def date (instant : Instant) : Calendar.Date :=
  .ofDay (instant.seconds / 86400)

/-- The seconds since midnight. -/
def secondOfDay (instant : Instant) : Nat :=
  (instant.seconds % 86400).toNat

/-- The date and the time of an instant to the second. -/
def literal (instant : Instant) : String :=
  let date := instant.date
  let time := instant.secondOfDay
  yearText date.year ++ "-" ++ padded 2 date.month ++ "-" ++ padded 2 date.day ++ " " ++
    padded 2 (time / 3600) ++ ":" ++ padded 2 (time / 60 % 60) ++ ":" ++
    padded 2 (time % 60 + instant.nanoseconds / second)

end Instant

end EntityQuery
