import FlatCode.Json.Value

/-!
# Equality of JSON values

Two arguments count as equal when they agree by value: numbers are compared as numbers, whether
they are integers, doubles or booleans (`true` is one), exactly and without rounding; a
not-a-number equals itself; objects are compared without regard to the order of their fields.

Structural equality (`=`) is finer: it tells `1`, `1.0` and `true` apart.
-/

namespace FlatCode

open Number

namespace Json

/-- What a number is compared by: a whole number of units of `2 ^ (-1074)`, or no finite number. -/
inductive Quantity where
  | exact (units : Int)
  | infinite (negative : Bool)
  | nan
  deriving DecidableEq

/-- The quantity of a double; both zeros are zero units. -/
def Quantity.ofBinary64 : Binary64 → Quantity
  | .finite negative units _ => .exact (if negative then -units else units)
  | .infinite negative => .infinite negative
  | .nan => .nan

/-- The quantity of an integer. -/
def Quantity.ofInt (n : Int) : Quantity := .exact (n * oneUnits)

/-- The quantity of a number or a boolean. -/
def quantity? : Json → Option Quantity
  | .bool b => some (.ofInt (if b then 1 else 0))
  | .int n => some (.ofInt n)
  | .float x => some (.ofBinary64 x)
  | _ => none

mutual

/-- Whether two values are equal by value. -/
def same : Json → Json → Bool
  | .null, .null => true
  | .string a, .string b => a == b
  | .array as, .array bs => sameItems as bs
  | .object as, .object bs => as.length == bs.length && sameFields as bs
  | a, b => match quantity? a, quantity? b with
    | some x, some y => x == y
    | _, _ => false

/-- Whether two lists have equal values in the same places. -/
def sameItems : List Json → List Json → Bool
  | [], [] => true
  | a :: as, b :: bs => same a b && sameItems as bs
  | _, _ => false

/-- Whether every field of the first object is in the second with an equal value. -/
def sameFields : List (Text × Json) → List (Text × Json) → Bool
  | [], _ => true
  | (key, a) :: rest, bs =>
    (match field? key bs with
    | some b => same a b
    | none => false) && sameFields rest bs

end

end Json

end FlatCode
