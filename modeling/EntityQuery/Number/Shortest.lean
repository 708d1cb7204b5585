import EntityQuery.Number.Binary64

/-!
# Number/Shortest — the shortest decimal that rounds to a double

`Binary64.shortest` tries one significant digit, then two, up to seventeen. On each grid it looks at
the two neighbours of the value and keeps one that is nearest to the same double; of two such the
nearer to the value wins, and the even one when the value lies half way. A candidate is tested
before it is taken, so it rounds back by construction (`nearestDecimal_candidate?`); worked out in
doubles it may miss by a last bit.
`Layout.text` then writes the digits with a decimal point or with an exponent.
-/

namespace EntityQuery

namespace Binary64

/-- A magnitude's worth as a multiple of a power of ten: numerator and denominator. -/
def overPower (magnitude : Nat) (exponent : Int) : Nat × Nat :=
  if 0 ≤ exponent then (units magnitude, unitsInOne * Nat.pow 10 exponent.toNat)
  else (units magnitude * Nat.pow 10 (-exponent).toNat, unitsInOne)

/-- The power of ten just above a positive magnitude's worth. -/
def decimalTop (magnitude : Nat) : Int :=
  (digitCount (units magnitude * Nat.pow 10 350 / unitsInOne) : Int) - 350

/-- The decimal with this many significant digits that rounds back, the nearer one if two do. -/
def candidate? (magnitude count : Nat) : Option Decimal :=
  let exponent := decimalTop magnitude - count
  let scaled := overPower magnitude exponent
  let low : Decimal := ⟨scaled.1 / scaled.2, exponent⟩
  let high : Decimal := ⟨scaled.1 / scaled.2 + 1, exponent⟩
  let chosen : Decimal := ⟨roundHalfEven scaled.1 scaled.2, exponent⟩
  [chosen, low, high].find? fun decimal => nearestDecimal decimal == magnitude

/-- The value in full: every double is a whole number of units of `10 ^ -1074`. -/
def exactDecimal (magnitude : Nat) : Decimal :=
  ⟨units magnitude * Nat.pow 5 1074, -1074⟩

/-- The decimal of fewest significant digits that rounds to the magnitude. -/
def shortest (magnitude : Nat) : Decimal :=
  ((List.range 17).findSome? fun count => candidate? magnitude (count + 1)).getD
    (exactDecimal magnitude)

theorem nearestDecimal_candidate? {magnitude count : Nat} {decimal : Decimal}
    (h : candidate? magnitude count = some decimal) : nearestDecimal decimal = magnitude := by
  simpa using List.find?_some h

end Binary64

namespace Decimal

/-- Moves the trailing zeros of the digits into the exponent, as far as the fuel reaches. -/
def trim : Nat → Decimal → Decimal
  | 0, decimal => decimal
  | fuel + 1, decimal =>
      if decimal.digits % 10 = 0 ∧ decimal.digits ≠ 0 then
        trim fuel ⟨decimal.digits / 10, decimal.exponent + 1⟩
      else decimal

end Decimal

/-- Where a number text changes from a decimal point to an exponent, and how the exponent looks. -/
structure Layout where
  /-- The least power of ten of a leading digit that is written without an exponent. -/
  leastPositional : Int
  /-- The greatest power of ten of a leading digit that is written without an exponent. -/
  greatestPositional : Int
  /-- The sign of a positive exponent. -/
  plus : String

namespace Layout

/-- An exponent with its sign. -/
def exponentText (layout : Layout) (exponent : Int) : String :=
  (if exponent < 0 then "-" else layout.plus) ++ Nat.repr exponent.natAbs

/-- A positive decimal whose digits have no trailing zero, always with a point or an exponent. -/
def decimalText (layout : Layout) (decimal : Decimal) : String :=
  let digits := (Nat.repr decimal.digits).toList
  let top := decimal.exponent + digits.length - 1
  if layout.leastPositional ≤ top ∧ top ≤ layout.greatestPositional then
    if 0 ≤ decimal.exponent then
      String.ofList (digits ++ List.replicate decimal.exponent.toNat '0') ++ ".0"
    else if 0 ≤ top then
      String.ofList (digits.take (top.toNat + 1) ++ '.' :: digits.drop (top.toNat + 1))
    else
      "0." ++ String.ofList (List.replicate (-top - 1).toNat '0' ++ digits)
  else
    let mantissa := match digits with
      | first :: second :: rest => first :: '.' :: second :: rest
      | short => short
    String.ofList mantissa ++ "e" ++ layout.exponentText top

/-- The shortest text of a finite double. -/
def text (layout : Layout) (x : Binary64) : String :=
  let sign := if x.isNegative then "-" else ""
  if x.magnitude = 0 then sign ++ "0.0"
  else sign ++ layout.decimalText ((Binary64.shortest x.magnitude).trim 20)

end Layout

end EntityQuery
