import EntityQuery.Instant.Basic
import EntityQuery.Text.Blank

/-!
# Instant/Reader — timestamps and dates as they are written

A timestamp has a date of fixed width, a `T` or a space, a time to the second with an optional
fraction, and an offset: `2020-03-01T00:30:00.25+01:00`. A date stands by itself and means midnight
UTC; its numbers may be short and may have white space in front, and its year may have a sign, which
frees it from the four digits. `Instant.read` takes a timestamp if it can and a date otherwise.
-/

namespace EntityQuery.Instant

/-! ## Pieces

A piece is read off the front of the text; what it leaves comes with it. -/

/-- Exactly so many digits. -/
def fixedNumber (width : Nat) (cs : List Char) : Option (Nat × List Char) :=
  let digits := cs.take width
  if digits.length = width ∧ digits.all Char.isDigit then
    some (Nat.ofDigitChars 10 digits 0, cs.drop width)
  else none

/-- One digit or more, at most so many if there is a limit. -/
def shortNumber (limit : Option Nat) (cs : List Char) : Option (Nat × List Char) :=
  let all := cs.takeWhile Char.isDigit
  let digits := match limit with
    | some limit => all.take limit
    | none => all
  if digits.isEmpty then none else some (Nat.ofDigitChars 10 digits 0, cs.drop digits.length)

/-- One of some characters. -/
def mark (marks : List Char) : List Char → Option (List Char)
  | [] => none
  | c :: rest => if c ∈ marks then some rest else none

/-- White space, if any. -/
def skipBlank (cs : List Char) : List Char :=
  cs.dropWhile isBlank

/-! ## Timestamps -/

/-- The nanoseconds of a fraction: nine digits count. -/
def nanosecondsOf (digits : List Char) : Nat :=
  let kept := digits.take 9
  Nat.ofDigitChars 10 kept 0 * Nat.pow 10 (9 - kept.length)

/-- The fraction of a second, if a point starts one. -/
def fraction (cs : List Char) : Option (Nat × List Char) :=
  match cs with
  | '.' :: rest =>
      let digits := rest.takeWhile Char.isDigit
      if digits.isEmpty then none
      else some (nanosecondsOf digits, rest.dropWhile Char.isDigit)
  | _ => some (0, cs)

/-- An offset from UTC in minutes, east of it positive. -/
def offset (cs : List Char) : Option (Int × List Char) :=
  match cs with
  | [] => none
  | c :: rest =>
      if c = 'Z' ∨ c = 'z' then some (0, rest)
      else do
        let sign ← if c = '+' then some 1 else if c = '-' ∨ c = '−' then some (-1) else none
        let (hours, rest) ← fixedNumber 2 rest
        let rest ← mark [':'] rest
        let (minutes, rest) ← fixedNumber 2 rest
        if hours < 24 ∧ minutes < 60 then some (sign * (60 * hours + minutes : Nat), rest) else none

/-- The instant of a UTC clock reading, less an offset in minutes; second sixty is a leap second. -/
def ofClock (date : Calendar.Date) (hour minute sec nanos : Nat) (offset : Int) : Instant :=
  let whole := min sec 59
  ⟨date.toDay * 86400 + (3600 * hour + 60 * minute + whole : Nat) - 60 * offset,
    nanos + (sec - whole) * second⟩

/-- A timestamp. -/
def readTimestamp (cs : List Char) : Option Instant := do
  let (year, cs) ← fixedNumber 4 cs
  let cs ← mark ['-'] cs
  let (month, cs) ← fixedNumber 2 cs
  let cs ← mark ['-'] cs
  let (day, cs) ← fixedNumber 2 cs
  let cs ← mark ['T', 't', ' '] cs
  let (hour, cs) ← fixedNumber 2 cs
  let cs ← mark [':'] cs
  let (minute, cs) ← fixedNumber 2 cs
  let cs ← mark [':'] cs
  let (sec, cs) ← fixedNumber 2 cs
  let (nanos, cs) ← fraction cs
  let (offset, cs) ← offset cs
  let date : Calendar.Date := ⟨year, month, day⟩
  if cs.isEmpty ∧ date.isValid ∧ hour < 24 ∧ minute < 60 ∧ sec ≤ 60 then
    some (ofClock date hour minute sec nanos offset)
  else none

/-! ## Dates -/

/-- A year: a sign and digits, or at most four digits. -/
def signedYear (cs : List Char) : Option (Int × List Char) :=
  match cs with
  | '-' :: rest => (shortNumber none rest).map fun (year, rest) => (-(year : Int), rest)
  | '+' :: rest => (shortNumber none rest).map fun (year, rest) => ((year : Int), rest)
  | _ => (shortNumber (some 4) cs).map fun (year, rest) => ((year : Int), rest)

/-- The first and the last year of a date. -/
def isYearInRange (year : Int) : Bool :=
  decide (-262143 ≤ year ∧ year ≤ 262142)

/-- A date, taken as midnight UTC. -/
def readDate (cs : List Char) : Option Instant := do
  let (year, cs) ← signedYear (skipBlank cs)
  let cs ← mark ['-'] cs
  let (month, cs) ← shortNumber (some 2) (skipBlank cs)
  let cs ← mark ['-'] cs
  let (day, cs) ← shortNumber (some 2) (skipBlank cs)
  let date : Calendar.Date := ⟨year, month, day⟩
  if cs.isEmpty ∧ isYearInRange year ∧ date.isValid then some (ofClock date 0 0 0 0 0) else none

/-- A timestamp or a date. -/
def read (text : String) : Option Instant :=
  (readTimestamp text.toList).or (readDate text.toList)

end EntityQuery.Instant
