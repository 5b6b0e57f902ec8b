/-!
# Double precision numbers

A finite double is a whole number of units of `2 ^ (-1074)`, the smallest positive double. Kept
that way a value has one representation, comparison is comparison of natural numbers, and rounding
is division of natural numbers. No machine float occurs.

A count of units is representable when 53 significant bits hold it and it lies below
`overflowUnits`, the number `2 ^ 1024`. The bound `m ≤ 2 ^ 53` in `Representable` admits the carry
of a rounding; `2 ^ 53` is `2 ^ 52` on the next grid, so it adds no value.

## What rounding does

A quotient goes to the nearest multiple of the spacing at its size (`2 ^ gridShift`), a half goes
to the even neighbour, and what reaches `overflowUnits` becomes infinite.
-/

namespace FlatCode.Number

-- `b ^ n` is the power of core, also beside a library that has powers in every monoid.
attribute [local instance (10000)] instPowNat

/-! ## Rounding a quotient -/

/-- The natural number nearest to `num / den`; a half goes to the even neighbour. -/
def roundHalfEven (num den : Nat) : Nat :=
  let q := num / den
  let r := num % den
  if 2 * r < den then q
  else if den < 2 * r then q + 1
  else if q % 2 = 0 then q else q + 1

theorem roundHalfEven_le (num den : Nat) : roundHalfEven num den ≤ num / den + 1 := by
  unfold roundHalfEven
  dsimp only
  split
  · omega
  · split
    · omega
    · split <;> omega

/-- A whole number is its own rounding. -/
theorem roundHalfEven_mul {den : Nat} (h : 0 < den) (n : Nat) :
    roundHalfEven (n * den) den = n := by
  unfold roundHalfEven
  simp [Nat.mul_div_cancel n h, h]

/-- The spacing of doubles around `num / den` units, as a power of two. -/
def gridShift (num den : Nat) : Nat := Nat.log2 (num / den) - 52

/-- The multiple of the spacing nearest to `num / den`. -/
def nearestUnits (num den : Nat) : Nat :=
  roundHalfEven num (den * 2 ^ gridShift num den) * 2 ^ gridShift num den

/-- Fifty-three bits are enough for the rounded multiple. -/
theorem roundHalfEven_grid_le (num den : Nat) :
    roundHalfEven num (den * 2 ^ gridShift num den) ≤ 2 ^ (53 : Nat) := by
  have h1 := roundHalfEven_le num (den * 2 ^ gridShift num den)
  have h2 : num / (den * 2 ^ gridShift num den) < 2 ^ (53 : Nat) := by
    rw [← Nat.div_div_eq_div_mul, Nat.div_lt_iff_lt_mul (Nat.two_pow_pos _), ← Nat.pow_add]
    have h3 : num / den < 2 ^ (Nat.log2 (num / den) + 1) := Nat.lt_log2_self
    refine Nat.lt_of_lt_of_le h3 (Nat.pow_le_pow_right (by decide) ?_)
    unfold gridShift
    omega
  omega

/-! ## The values -/

/-- The units of the number one: `2 ^ 1074`. -/
def oneUnits : Nat := 2 ^ (1074 : Nat)

/-- The first count of units that is too large for a double: `2 ^ 1024` in units. -/
def overflowUnits : Nat := 2 ^ (2098 : Nat)

theorem overflowUnits_pos : 0 < overflowUnits := by
  unfold overflowUnits
  exact Nat.two_pow_pos 2098

/-- A count of units that is the magnitude of a finite double. -/
def Representable (units : Nat) : Prop :=
  units < overflowUnits ∧ ∃ m e : Nat, m ≤ 2 ^ (53 : Nat) ∧ units = m * 2 ^ e

/-- A double precision number; all not-a-numbers are one. -/
inductive Binary64 where
  /-- A sign and a magnitude in units of `2 ^ (-1074)`. -/
  | finite (negative : Bool) (units : Nat) (representable : Representable units)
  | infinite (negative : Bool)
  | nan
  deriving DecidableEq

namespace Binary64

/-- Zero, with a sign. -/
def zero (negative : Bool) : Binary64 :=
  .finite negative 0 ⟨overflowUnits_pos, 0, 0, Nat.zero_le _, (Nat.zero_mul _).symm⟩

/-- The double nearest to `num / den` units. -/
def ofRatio (negative : Bool) (num den : Nat) : Binary64 :=
  if h : nearestUnits num den < overflowUnits then
    .finite negative (nearestUnits num den) ⟨h, _, _, roundHalfEven_grid_le num den, rfl⟩
  else .infinite negative

/-- How many decimal digits a number has. -/
def decimalLength (n : Nat) : Nat := (Nat.toDigits 10 n).length

/--
The double nearest to `significand * 10 ^ exponent`.

Sizes far outside the range are decided by the position of the leading digit alone, so no huge
power is computed: a number of at least `10 ^ 310` is infinite, one below `10 ^ (-330)` is zero.
-/
def ofDecimal (negative : Bool) (significand : Nat) (exponent : Int) : Binary64 :=
  let magnitude : Int := decimalLength significand + exponent
  if significand = 0 then zero negative
  else if 310 < magnitude then .infinite negative
  else if magnitude < -330 then zero negative
  else if 0 ≤ exponent then ofRatio negative (significand * 10 ^ exponent.toNat * oneUnits) 1
  else ofRatio negative (significand * oneUnits) (10 ^ (-exponent).toNat)

end Binary64

end FlatCode.Number
