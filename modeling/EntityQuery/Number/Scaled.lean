import EntityQuery.Number.Binary64

/-!
# Number/Scaled — a double times a power of ten

A decimal has two readings. `Binary64.nearestDecimal` rounds it once. `Binary64.scaled` works in
doubles: the digits are rounded to a double, which is then multiplied by the power of ten, rounded
in its turn, or divided by it. Digits that need more than 53 bits, a power above `10 ^ 22` and a
result in the subnormal range may each move the last bit, so the two readings can differ.

The powers end at `10 ^ 308`. A decimal above them is out of range, and one below them is divided by
`10 ^ 308` until the rest of the exponent is a power or nothing is left; `scaledDown_zero` says that
nothing stays nothing.
-/

namespace EntityQuery

namespace Binary64

/-- The magnitude nearest to the product of two. -/
def nearestProduct (left right : Nat) : Nat :=
  nearest (units left * units right) (unitsInOne * unitsInOne)

/-- The magnitude nearest to the quotient of two. -/
def nearestQuotient (left right : Nat) : Nat :=
  nearest (units left) (units right)

/-- The magnitude nearest to a natural number. -/
def nearestNat (n : Nat) : Nat :=
  nearest n 1

/-- The greatest power of ten that is a finite double. -/
def greatestPower : Nat := 308

/-- The magnitude nearest to a power of ten. -/
def powerOfTen (power : Nat) : Nat :=
  nearestNat (Nat.pow 10 power)

/-- A magnitude times a power of ten, `infiniteMagnitude` or more when it is out of range. -/
def scaledUp (magnitude power : Nat) : Nat :=
  if magnitude = 0 then 0
  else if greatestPower < power then infiniteMagnitude
  else nearestProduct magnitude (powerOfTen power)

/-- A magnitude divided by a power of ten, by the greatest one as often as it takes. -/
def scaledDown (magnitude power : Nat) : Nat :=
  if magnitude = 0 then 0
  else if greatestPower < power then
    scaledDown (nearestQuotient magnitude (powerOfTen greatestPower)) (power - greatestPower)
  else nearestQuotient magnitude (powerOfTen power)
termination_by power
decreasing_by
  have : 0 < greatestPower := by decide
  omega

/-- The magnitude of a decimal that is worked out in doubles. -/
def scaled (value : Decimal) : Nat :=
  if 0 ≤ value.exponent then scaledUp (nearestNat value.digits) value.exponent.toNat
  else scaledDown (nearestNat value.digits) (-value.exponent).toNat

/-- The double that a signed decimal works out to, unless that is infinite. -/
def ofDecimal? (negative : Bool) (value : Decimal) : Option Binary64 :=
  let magnitude := scaled value
  if magnitude < infiniteMagnitude then some (ofMagnitude negative magnitude) else none

/-! ## Zero -/

theorem scaledUp_zero (power : Nat) : scaledUp 0 power = 0 :=
  if_pos rfl

theorem scaledDown_zero (power : Nat) : scaledDown 0 power = 0 := by
  unfold scaledDown
  exact if_pos rfl

theorem nearest_zero (den : Nat) : nearest 0 den = 0 := by
  simp [nearest, roundHalfEven]

/-- Zero units of any power of ten are zero. -/
theorem scaled_zero (exponent : Int) : scaled ⟨0, exponent⟩ = 0 := by
  have h : nearestNat 0 = 0 := nearest_zero 1
  simp only [scaled, h, scaledUp_zero, scaledDown_zero, ite_self]

example : ofDecimal? false ⟨3, -40⟩ = some ⟨0x37ba22393b33036a⟩ := by decide +kernel
example : ofDecimal? false ⟨24703282292062328, -340⟩ = some ⟨0⟩ := by decide +kernel
example : ofDecimal? false ⟨17976931348623158, 292⟩ = none := by decide +kernel

end Binary64

end EntityQuery
