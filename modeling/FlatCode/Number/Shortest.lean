import FlatCode.Number.Binary64

/-!
# Shortest decimals

The decimal with the fewest digits that reads back as a given double, and of those the one nearest
to it; of two equally near ones the even one.

For one digit, two digits and so on the two neighbours of the value on that decimal grid are read
back. If any decimal of so many digits reads back as the value, one of the two neighbours does. The
seventeenth grid always has a hit; were there none, the exact decimal would be written
(`exactDecimal`), so the text reads back in any case.
-/

namespace FlatCode.Number

-- `b ^ n` is the power of core, as in `Binary64`.
attribute [local instance (10000)] instPowNat

/-- A decimal number `significand * 10 ^ exponent`. -/
structure Decimal where
  significand : Nat
  exponent : Int
  deriving DecidableEq, Repr

namespace Decimal

/-- The double that a decimal reads as. -/
def toBinary64 (negative : Bool) (d : Decimal) : Binary64 :=
  .ofDecimal negative d.significand d.exponent

/-- The exponent of the leading digit. -/
def leadingExponent (d : Decimal) : Int := (decimalLength d.significand : Int) - 1 + d.exponent
where
  decimalLength := Binary64.decimalLength

/-- The number without trailing zeros in its significand; zero is left alone. -/
def normalize (d : Decimal) : Decimal :=
  if h : d.significand = 0 then d
  else if d.significand % 10 = 0 then normalize ⟨d.significand / 10, d.exponent + 1⟩
  else d
termination_by d.significand
decreasing_by exact Nat.div_lt_self (Nat.pos_of_ne_zero h) (by decide)

end Decimal

/-- The exponent of the leading digit of a positive number of units, read off `10 ^ 340` times it:
that product is at least one, so its whole part has all the leading digits. -/
def leadingExponentOfUnits (units : Nat) : Int :=
  (Binary64.decimalLength (units * 10 ^ (340 : Nat) / oneUnits) : Int) - 341

/-- The two sides of the quotient `units * 2 ^ (-1074) / 10 ^ exponent`. -/
def gridQuotient (units : Nat) (exponent : Int) : Nat × Nat :=
  if 0 ≤ exponent then (units, oneUnits * 10 ^ exponent.toNat)
  else (units * 10 ^ (-exponent).toNat, oneUnits)

/-- The multiple of `10 ^ exponent` that reads back as the number, if a neighbour does; of two the
nearer, and of two equally near the even one. -/
def neighbour? (units : Nat) (exponent : Int) : Option Decimal :=
  let (num, den) := gridQuotient units exponent
  let below : Decimal := ⟨num / den, exponent⟩
  let above : Decimal := ⟨num / den + 1, exponent⟩
  let value := Binary64.ofRatio false units 1
  let r := num % den
  if below.toBinary64 false = value then
    if above.toBinary64 false = value then
      if 2 * r < den then some below
      else if den < 2 * r then some above
      else if below.significand % 2 = 0 then some below else some above
    else some below
  else if above.toBinary64 false = value then some above
  else none

/-- The decimal that equals a number of units. -/
def exactDecimal (units : Nat) : Decimal := ⟨units * 5 ^ (1074 : Nat), -1074⟩

/-- The shortest decimal of a positive number of units. -/
def shortest (units : Nat) : Decimal :=
  let top := leadingExponentOfUnits units
  let found := (List.range 17).findSome? fun n : Nat => neighbour? units (top - n)
  (found.getD (exactDecimal units)).normalize

end FlatCode.Number
