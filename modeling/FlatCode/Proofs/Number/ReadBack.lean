import FlatCode.Number.Shortest
import FlatCode.Proofs.Number.Rounding

/-!
# Shortest decimals read back

Whichever way `shortest` finds its decimal, the decimal reads back as the number it was found for: a
neighbour on a decimal grid is taken only if it does, and the exact decimal has the value itself.
Taking zeros off its end does not change what it reads as.

* `toBinary64_shortest` — the double of the shortest decimal
-/

namespace FlatCode.Number

-- `b ^ n` is the power of core, as in `Binary64`.
attribute [local instance (10000)] instPowNat

/-! ## The exact decimal -/

theorem decimalLength_le_iff {n k : Nat} (hk : 0 < k) :
    Binary64.decimalLength n ≤ k ↔ n < 10 ^ k :=
  Nat.length_toDigits_le_iff (by decide) hk

/-- Powers are compared by comparing small ones: `a ^ m ≤ b ^ n` many times and `a ^ r ≤ b ^ s`
once. -/
theorem pow_le_pow_of_parts {a b m n r s k big small : Nat} (hpart : a ^ m ≤ b ^ n)
    (hrest : a ^ r ≤ b ^ s) (hbig : big = m * k + r) (hsmall : small = n * k + s) :
    a ^ big ≤ b ^ small := by
  have hparts : (a ^ m) ^ k ≤ (b ^ n) ^ k := Nat.pow_le_pow_left hpart k
  rw [← Nat.pow_mul, ← Nat.pow_mul] at hparts
  rw [hbig, hsmall, Nat.pow_add, Nat.pow_add]
  exact Nat.mul_le_mul hparts hrest

/-- `2 ^ 1024` has at most 309 digits. -/
theorem two_pow_1024_le : 2 ^ (1024 : Nat) ≤ 10 ^ (309 : Nat) :=
  pow_le_pow_of_parts (m := 93) (n := 28) (r := 1) (s := 1) (k := 11) (by decide) (by decide) rfl
    rfl

/-- `5 ^ 1074` has at least 744 digits. -/
theorem ten_pow_743_le : 10 ^ (743 : Nat) ≤ 5 ^ (1074 : Nat) :=
  pow_le_pow_of_parts (m := 9) (n := 13) (r := 5) (s := 8) (k := 82) (by decide) (by decide) rfl rfl

theorem ten_pow_eq (n : Nat) : 10 ^ n = 5 ^ n * 2 ^ n := by
  rw [← Nat.mul_pow]

theorem decimalLength_exact_le {units : Nat} (h : units < overflowUnits) :
    Binary64.decimalLength (units * 5 ^ (1074 : Nat)) ≤ 1383 := by
  rw [decimalLength_le_iff (by decide)]
  unfold overflowUnits at h
  calc units * 5 ^ (1074 : Nat) < 2 ^ (2098 : Nat) * 5 ^ (1074 : Nat) :=
        Nat.mul_lt_mul_of_pos_right h (Nat.pow_pos (by decide))
    _ = 2 ^ (1024 : Nat) * 10 ^ (1074 : Nat) := by
        rw [ten_pow_eq, show 2098 = 1024 + 1074 from rfl, Nat.pow_add, Nat.mul_assoc,
          Nat.mul_comm (2 ^ (1074 : Nat))]
    _ ≤ 10 ^ (309 : Nat) * 10 ^ (1074 : Nat) := Nat.mul_le_mul_right _ two_pow_1024_le
    _ = 10 ^ (1383 : Nat) := by rw [← Nat.pow_add]

theorem le_decimalLength_exact {units : Nat} (h : 0 < units) :
    744 ≤ Binary64.decimalLength (units * 5 ^ (1074 : Nat)) := by
  have hnot : ¬Binary64.decimalLength (units * 5 ^ (1074 : Nat)) ≤ 743 := by
    rw [decimalLength_le_iff (by decide), Nat.not_lt]
    exact Nat.le_trans ten_pow_743_le (Nat.le_mul_of_pos_left _ h)
  omega

/-- The exact decimal of a number of units is in the range that is not cut off, and its value is the
number. -/
theorem toBinary64_exactDecimal {units : Nat} (hpos : 0 < units) (h : units < overflowUnits) :
    (exactDecimal units).toBinary64 false = Binary64.ofRatio false units 1 := by
  have hsmall := decimalLength_exact_le h
  have hlarge := le_decimalLength_exact hpos
  have hne : units * 5 ^ (1074 : Nat) ≠ 0 :=
    Nat.mul_ne_zero (by omega) (Nat.pos_iff_ne_zero.mp (Nat.pow_pos (by decide)))
  unfold Decimal.toBinary64 exactDecimal Binary64.ofDecimal
  dsimp only
  -- between 744 and 1383 digits: neither too large nor too small for the exponent of -1074
  rw [if_neg hne, if_neg (by omega), if_neg (by omega), if_neg (by decide)]
  have hnum : units * 5 ^ (1074 : Nat) * oneUnits = 10 ^ (1074 : Nat) * units := by
    unfold oneUnits
    rw [Nat.mul_assoc, ← ten_pow_eq, Nat.mul_comm]
  rw [hnum, show (-(-1074 : Int)).toNat = 1074 from rfl]
  have hscale := ofRatio_mul_mul (k := 10 ^ (1074 : Nat)) (Nat.pow_pos (by decide)) false units 1
  rwa [Nat.mul_one] at hscale

/-! ## Grids -/

/-- A neighbour on a decimal grid is taken only if it reads back. -/
theorem toBinary64_of_neighbour? {units : Nat} {exponent : Int} {d : Decimal}
    (h : neighbour? units exponent = some d) :
    d.toBinary64 false = Binary64.ofRatio false units 1 := by
  unfold neighbour? at h
  dsimp only at h
  split at h
  · next hbelow =>
    split at h
    · next habove =>
      split at h
      · cases h; exact hbelow
      · split at h
        · cases h; exact habove
        · split at h
          · cases h; exact hbelow
          · cases h; exact habove
    · cases h; exact hbelow
  · split at h
    · next habove => cases h; exact habove
    · cases h

/-- Zeros at the end of a significand go into the exponent. -/
theorem toBinary64_normalize (negative : Bool) (d : Decimal) :
    d.normalize.toBinary64 negative = d.toBinary64 negative := by
  fun_induction Decimal.normalize d with
  | case1 d h => rfl
  | case2 d h hten ih =>
    rw [ih]
    unfold Decimal.toBinary64
    dsimp only
    have hsig : d.significand = 10 * (d.significand / 10) := by omega
    rw [← ofDecimal_ten_mul, ← hsig]
  | case3 d h hten => rfl

/-- **The shortest decimal of a double reads back as the double, with either sign.** -/
theorem toBinary64_shortest {units : Nat} (hpos : 0 < units) (h : Representable units)
    (negative : Bool) : (shortest units).toBinary64 negative = .finite negative units h := by
  have hfound : ∀ found : Option Decimal,
      (∀ d, found = some d → d.toBinary64 false = Binary64.ofRatio false units 1) →
      (found.getD (exactDecimal units)).toBinary64 false = Binary64.ofRatio false units 1 := by
    intro found hd
    cases found with
    | none => exact toBinary64_exactDecimal hpos h.1
    | some d => exact hd d rfl
  refine ofDecimal_sign ?_ negative
  change (shortest units).toBinary64 false = .finite false units h
  unfold shortest
  dsimp only
  rw [toBinary64_normalize, hfound, ofRatio_of_representable false h]
  intro d hd
  obtain ⟨n, -, hn⟩ := List.exists_of_findSome?_eq_some hd
  exact toBinary64_of_neighbour? hn

end FlatCode.Number
