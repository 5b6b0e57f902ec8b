import FlatCode.Number.Binary64

/-!
# What rounding keeps

Rounding sees a quotient only: a common factor of both sides changes nothing. A count of units that
is representable is a multiple of its own spacing, so it is rounded to itself. A decimal keeps its
double when its point is moved and its exponent with it.

* `ofRatio_mul_mul` — a common factor of numerator and denominator
* `ofRatio_of_representable` — a double is its own rounding
* `ofDecimal_mul_pow` — a decimal with zeros put behind its digits
-/

namespace FlatCode.Number

-- `b ^ n` is the power of core, as in `Binary64`.
attribute [local instance (10000)] instPowNat

/-! ## Quotients -/

theorem roundHalfEven_mul_mul {k : Nat} (hk : 0 < k) (num den : Nat) :
    roundHalfEven (k * num) (k * den) = roundHalfEven num den := by
  have hlow : 2 * (k * (num % den)) < k * den ↔ 2 * (num % den) < den := by
    rw [Nat.mul_left_comm]
    exact Nat.mul_lt_mul_left hk
  have hhigh : k * den < 2 * (k * (num % den)) ↔ den < 2 * (num % den) := by
    rw [Nat.mul_left_comm]
    exact Nat.mul_lt_mul_left hk
  unfold roundHalfEven
  simp only [Nat.mul_div_mul_left _ _ hk, Nat.mul_mod_mul_left, hlow, hhigh]

theorem nearestUnits_mul_mul {k : Nat} (hk : 0 < k) (num den : Nat) :
    nearestUnits (k * num) (k * den) = nearestUnits num den := by
  have hgrid : gridShift (k * num) (k * den) = gridShift num den := by
    unfold gridShift
    rw [Nat.mul_div_mul_left _ _ hk]
  unfold nearestUnits
  rw [hgrid, Nat.mul_assoc, roundHalfEven_mul_mul hk]

/-- A common factor of numerator and denominator does not change the double. -/
theorem ofRatio_mul_mul {k : Nat} (hk : 0 < k) (negative : Bool) (num den : Nat) :
    Binary64.ofRatio negative (k * num) (k * den) = Binary64.ofRatio negative num den := by
  unfold Binary64.ofRatio
  simp only [nearestUnits_mul_mul hk]

/-! ## Representable counts -/

/-- A representable count of units is a multiple of the spacing at its size. -/
theorem gridShift_dvd {units : Nat} (h : Representable units) : 2 ^ gridShift units 1 ∣ units := by
  obtain ⟨-, m, e, hm, rfl⟩ := h
  unfold gridShift
  rw [Nat.div_one]
  have hle : m * 2 ^ e ≤ 2 ^ (53 + e) := by
    rw [Nat.pow_add]
    exact Nat.mul_le_mul_right _ hm
  rcases Nat.lt_or_eq_of_le hle with hlt | heq
  · -- below `2 ^ (53 + e)` the spacing is at most `2 ^ e`
    refine Nat.dvd_trans (Nat.pow_dvd_pow 2 ?_) (Nat.dvd_mul_left (2 ^ e) m)
    by_cases h0 : m * 2 ^ e = 0
    · simp [h0]
    · have := (Nat.log2_lt h0).mpr hlt
      omega
  · -- the carry: a power of two
    rw [heq, Nat.log2_two_pow]
    exact Nat.pow_dvd_pow 2 (by omega)

theorem nearestUnits_of_representable {units : Nat} (h : Representable units) :
    nearestUnits units 1 = units := by
  obtain ⟨q, hq⟩ := gridShift_dvd h
  unfold nearestUnits
  generalize gridShift units 1 = shift at hq ⊢
  have hmul : units = q * 2 ^ shift := by rw [hq, Nat.mul_comm]
  rw [Nat.one_mul, hmul, roundHalfEven_mul (Nat.two_pow_pos shift)]

/-- **A double is its own rounding.** -/
theorem ofRatio_of_representable (negative : Bool) {units : Nat} (h : Representable units) :
    Binary64.ofRatio negative units 1 = .finite negative units h := by
  unfold Binary64.ofRatio
  simp only [nearestUnits_of_representable h, h.1, dif_pos]

/-! ## Decimals -/

theorem decimalLength_ten_mul {n : Nat} (h : 0 < n) :
    Binary64.decimalLength (10 * n) = Binary64.decimalLength n + 1 := by
  have hdigits := Nat.toDigits_append_toDigits (b := 10) (by decide) h (show 0 < 10 by decide)
  rw [Nat.add_zero, Nat.toDigits_zero] at hdigits
  unfold Binary64.decimalLength
  rw [← hdigits, List.length_append]
  rfl

theorem ofDecimal_zero (negative : Bool) (exponent : Int) :
    Binary64.ofDecimal negative 0 exponent = .zero negative := by
  simp [Binary64.ofDecimal]

/-- A zero behind the digits counts as one in the exponent. -/
theorem ofDecimal_ten_mul (negative : Bool) (significand : Nat) (exponent : Int) :
    Binary64.ofDecimal negative (10 * significand) exponent
      = Binary64.ofDecimal negative significand (exponent + 1) := by
  rcases Nat.eq_zero_or_pos significand with rfl | hpos
  · rw [Nat.mul_zero, ofDecimal_zero, ofDecimal_zero]
  have hmagnitude : (Binary64.decimalLength (10 * significand) : Int) + exponent
      = Binary64.decimalLength significand + (exponent + 1) := by
    rw [decimalLength_ten_mul hpos]
    omega
  -- the ten goes from the digits to the power of ten, on whichever side of the quotient it is
  have hratio : (if 0 ≤ exponent then
        Binary64.ofRatio negative (10 * significand * 10 ^ exponent.toNat * oneUnits) 1
      else Binary64.ofRatio negative (10 * significand * oneUnits) (10 ^ (-exponent).toNat))
      = if 0 ≤ exponent + 1 then
        Binary64.ofRatio negative (significand * 10 ^ (exponent + 1).toNat * oneUnits) 1
      else Binary64.ofRatio negative (significand * oneUnits) (10 ^ (-(exponent + 1)).toNat) := by
    by_cases h0 : 0 ≤ exponent
    · rw [if_pos h0, if_pos (by omega), show (exponent + 1).toNat = exponent.toNat + 1 by omega,
        Nat.pow_succ, Nat.mul_comm 10 significand, Nat.mul_assoc significand 10,
        Nat.mul_comm 10 (10 ^ exponent.toNat)]
    · rw [if_neg h0, show (-exponent).toNat = (-(exponent + 1)).toNat + 1 by omega, Nat.pow_succ,
        Nat.mul_comm _ 10, Nat.mul_assoc, ofRatio_mul_mul (by decide)]
      by_cases h1 : exponent + 1 = 0
      · rw [if_pos (by omega), h1]
        simp
      · rw [if_neg (by omega)]
  unfold Binary64.ofDecimal
  simp only [hmagnitude, hratio, show (10 * significand = 0) = (significand = 0) by
    rw [Nat.mul_eq_zero]; simp]

/-- **Zeros behind the digits count in the exponent.** -/
theorem ofDecimal_mul_pow (negative : Bool) (significand : Nat) (exponent : Int) (k : Nat) :
    Binary64.ofDecimal negative (10 ^ k * significand) exponent
      = Binary64.ofDecimal negative significand (exponent + k) := by
  induction k generalizing exponent with
  | zero => simp
  | succ k ih =>
    rw [Nat.pow_succ, Nat.mul_comm _ 10, Nat.mul_assoc, ofDecimal_ten_mul, ih]
    congr 1
    omega

/-- The sign of a decimal is the sign of its double and changes nothing else. -/
theorem ofDecimal_sign {significand : Nat} {exponent : Int} {units : Nat}
    {h : Representable units}
    (hread : Binary64.ofDecimal false significand exponent = .finite false units h)
    (negative : Bool) :
    Binary64.ofDecimal negative significand exponent = .finite negative units h := by
  have hratio : ∀ num den, Binary64.ofRatio false num den = .finite false units h →
      Binary64.ofRatio negative num den = .finite negative units h := by
    intro num den hnum
    unfold Binary64.ofRatio at hnum ⊢
    split at hnum
    · next hlt =>
      rw [dif_pos hlt]
      cases hnum
      rfl
    · cases hnum
  have hzero : Binary64.zero false = .finite false units h →
      Binary64.zero negative = .finite negative units h := by
    intro hz
    cases hz
    rfl
  unfold Binary64.ofDecimal at hread ⊢
  dsimp only at hread ⊢
  split at hread
  · next hs => rw [if_pos hs]; exact hzero hread
  · next hs =>
    rw [if_neg hs]
    split at hread
    · cases hread
    · next hbig =>
      rw [if_neg hbig]
      split at hread
      · next hsmall => rw [if_pos hsmall]; exact hzero hread
      · next hsmall =>
        rw [if_neg hsmall]
        split at hread
        · next hexp => rw [if_pos hexp]; exact hratio _ _ hread
        · next hexp => rw [if_neg hexp]; exact hratio _ _ hread

end FlatCode.Number
