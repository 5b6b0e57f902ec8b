import FlatCode.Number.Shortest

/-!
# The layout of decimal numbers

A decimal is written positionally while the exponent of its leading digit stays in a window, and
with an exponent outside it. A positional number always shows a digit on both sides of the point.
-/

namespace FlatCode.Number

/-- When a number is written positionally, and how wide an exponent is at least. -/
structure Layout where
  /-- The least exponent of the leading digit that is written positionally. -/
  least : Int
  /-- The first exponent of the leading digit that is too large for it. -/
  bound : Int
  /-- The least number of digits of a written exponent. -/
  exponentWidth : Nat

/-- The digits of a number, with leading zeros up to a width. -/
def padDigits (width n : Nat) : List Char :=
  let digits := Nat.toDigits 10 n
  List.replicate (width - digits.length) '0' ++ digits

/-- Digits with the point after the digit of the unit: zeros fill up to it on either side. -/
def positional (digits : List Char) (leading : Int) : List Char :=
  if leading < 0 then
    '0' :: '.' :: (List.replicate (-leading - 1).toNat '0' ++ digits)
  else
    let whole := leading.toNat + 1
    let fraction := digits.drop whole
    digits.take whole ++ List.replicate (whole - digits.length) '0'
      ++ '.' :: (if fraction.isEmpty then ['0'] else fraction)

/-- The first digit, the others behind a point, and the exponent with its sign. -/
def scientific (digits : List Char) (leading : Int) (width : Nat) : List Char :=
  let fraction := digits.drop 1
  digits.take 1 ++ (if fraction.isEmpty then [] else '.' :: fraction)
    ++ 'e' :: (if leading < 0 then '-' else '+') :: padDigits width leading.natAbs

/-- A nonnegative decimal in a layout. -/
def Layout.write (layout : Layout) (d : Decimal) : List Char :=
  let digits := Nat.toDigits 10 d.significand
  let leading := if d.significand = 0 then 0 else d.leadingExponent
  if layout.least ≤ leading ∧ leading < layout.bound then positional digits leading
  else scientific digits leading layout.exponentWidth

/-- The text of the magnitude of a finite double: its shortest decimal in a layout. -/
def Layout.writeUnits (layout : Layout) (units : Nat) : List Char :=
  layout.write (if units = 0 then ⟨0, 0⟩ else shortest units)

/-- The layout of this library: positional from `1e-4` up to `1e16`, exponents of two digits. -/
def Layout.standard : Layout := ⟨-4, 16, 2⟩

end FlatCode.Number
