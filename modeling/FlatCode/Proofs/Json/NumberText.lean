import FlatCode.Json.Writer
import FlatCode.Proofs.Number.ReadBack
import FlatCode.Proofs.Json.Spelling

/-!
# The text of numbers

What is written for a number is a spelling of it. An integer is written by its digits alone, so it
is read as an integer; a double always shows a point or an exponent, so it is read as a double, and
as the same one, because its shortest decimal reads back.

A layout moves the point of a decimal and fills up with zeros. Neither changes the double that its
digits and its exponent stand for.

* `spellsNumber_int`, `spellsNumber_write` — integers, and decimals in a layout
* `spells_float` — doubles
-/

namespace FlatCode.Json

open Number

-- `b ^ n` is the power of core, as in `Binary64`.
attribute [local instance (10000)] instPowNat

/-! ## Digits -/

theorem isDigit_of_mem_toDigits {n : Nat} {c : Char} (h : c ∈ Nat.toDigits 10 n) :
    isDigit c = true := by
  have hdigit := Nat.isDigit_of_mem_toDigits (by decide) (by decide) h
  rw [Char.isDigit_iff_toNat] at hdigit
  simp only [isDigit, Bool.and_eq_true, decide_eq_true_eq]
  exact hdigit

/-- The digits of a positive number do not start with zero. -/
theorem head?_toDigits_ne_zero {n : Nat} (h : 0 < n) : (Nat.toDigits 10 n).head? ≠ some '0' := by
  induction n using Nat.strongRecOn with
  | _ n ih =>
    by_cases hlt : n < 10
    · rw [Nat.toDigits_of_lt_base hlt]
      have hall : ∀ d ∈ List.range 10, 0 < d → [Nat.digitChar d].head? ≠ some '0' := by decide
      exact hall n (List.mem_range.mpr hlt) h
    · rw [Nat.toDigits_of_base_le (by decide) (by omega),
        List.head?_append, List.head?_eq_some_head Nat.toDigits_ne_nil, Option.some_or,
        ← List.head?_eq_some_head]
      exact ih (n / 10) (by omega) (by omega)

theorem isWhole_toDigits (n : Nat) : IsWhole (Nat.toDigits 10 n) := by
  refine ⟨Nat.toDigits_ne_nil, fun c => isDigit_of_mem_toDigits, fun hhead => ?_⟩
  rcases Nat.eq_zero_or_pos n with rfl | hpos
  · exact Nat.toDigits_zero 10
  · exact absurd hhead (head?_toDigits_ne_zero hpos)

theorem isDigit_of_mem_zeros {k : Nat} {c : Char} (h : c ∈ List.replicate k '0') :
    isDigit c = true := by
  rw [List.eq_of_mem_replicate h]
  decide

/-- Zeros in front of digits do not count. -/
theorem ofDigitChars_zeros_append (k : Nat) (digits : List Char) :
    Nat.ofDigitChars 10 (List.replicate k '0' ++ digits) 0 = Nat.ofDigitChars 10 digits 0 := by
  rw [Nat.ofDigitChars_append, Nat.ofDigitChars_replicate_zero, Nat.mul_zero]

/-! ## Integers -/

/-- **An integer is spelled by its digits**, unless there are too many to be read. -/
theorem spellsNumber_int (negative : Bool) {n : Nat}
    (h : (Nat.toDigits 10 n).length ≤ maxDigits) :
    SpellsNumber negative (.int (if negative then -(n : Int) else n)) (Nat.toDigits 10 n) := by
  have hnumber : numberOf negative (Nat.toDigits 10 n) [] none
      = .ok (.int (if negative then -(n : Int) else n)) := by
    unfold numberOf
    rw [if_pos (by rfl), if_neg (by omega), Nat.ofDigitChars_ten_toDigits]
  have hparts := SpellsNumber.parts (isWhole_toDigits n) (by simp) .none hnumber
  simpa [pointed] using hparts

/-! ## Decimals in a layout -/

/-- A number with a fraction or an exponent is a double. -/
theorem spellsNumber_decimal (negative : Bool) {whole fraction text : List Char}
    {exponent : Option Int} (hwhole : IsWhole whole)
    (hfraction : ∀ c ∈ fraction, isDigit c = true) (hexponent : SpellsExponent exponent text)
    (hdouble : fraction ≠ [] ∨ exponent ≠ none) :
    SpellsNumber negative
      (.float (.ofDecimal negative (Nat.ofDigitChars 10 (whole ++ fraction) 0)
        (exponent.getD 0 - fraction.length)))
      (whole ++ (pointed fraction ++ text)) := by
  refine .parts hwhole hfraction hexponent ?_
  unfold numberOf
  rw [if_neg]
  rw [Bool.and_eq_true, List.isEmpty_iff, Option.isNone_iff_eq_none]
  rintro ⟨h1, h2⟩
  rcases hdouble with h | h
  · exact h h1
  · exact h h2

theorem pointed_of_ne_nil {digits : List Char} (h : digits ≠ []) :
    pointed digits = '.' :: digits := by
  cases digits with
  | nil => exact absurd rfl h
  | cons c digits => rfl

/-- Digits with a point put somewhere are the decimal whose exponent says where. Zero has no place
to be filled up. -/
theorem spellsNumber_positional (negative : Bool) {digits : List Char} (hwhole : IsWhole digits)
    {leading : Int} (hzero : digits.head? = some '0' → leading ≤ 0) :
    SpellsNumber negative
      (.float (.ofDecimal negative (Nat.ofDigitChars 10 digits 0) (leading + 1 - digits.length)))
      (positional digits leading) := by
  obtain ⟨hne, hdigits, hhead⟩ := hwhole
  have hlength := List.length_pos_iff.mpr hne
  unfold positional
  dsimp only
  split
  · next hneg =>
    -- zeros between the point and the digits
    have hfraction : ∀ c ∈ List.replicate (-leading - 1).toNat '0' ++ digits, isDigit c = true := by
      intro c hc
      rcases List.mem_append.mp hc with h | h
      · exact isDigit_of_mem_zeros h
      · exact hdigits c h
    have hspells := @spellsNumber_decimal negative ['0'] _ [] none
      ⟨by simp, by simp [isDigit], fun _ => rfl⟩ hfraction .none (.inl (by simp [hne]))
    have hvalue :
        Nat.ofDigitChars 10 (['0'] ++ (List.replicate (-leading - 1).toNat '0' ++ digits)) 0
        = Nat.ofDigitChars 10 digits 0 := by
      have hzeros := ofDigitChars_zeros_append ((-leading - 1).toNat + 1) digits
      rwa [List.replicate_succ] at hzeros
    rw [hvalue, pointed_of_ne_nil (by simp [hne])] at hspells
    have hexponent : (none : Option Int).getD 0
        - (List.replicate (-leading - 1).toNat '0' ++ digits).length
        = leading + 1 - digits.length := by
      simp only [Option.getD_none, List.length_append, List.length_replicate]
      omega
    rw [hexponent] at hspells
    simpa using hspells
  · next hpos =>
    by_cases hfits : digits.length ≤ leading.toNat + 1
    · -- zeros between the digits and the point
      have hdrop : digits.drop (leading.toNat + 1) = [] := List.drop_eq_nil_of_le hfits
      rw [hdrop, List.take_of_length_le hfits, List.isEmpty_nil, if_pos rfl]
      generalize hk : leading.toNat + 1 - digits.length = k
      have hwhole : IsWhole (digits ++ List.replicate k '0') := by
        refine ⟨by simp [hne], ?_, ?_⟩
        · intro c hc
          rcases List.mem_append.mp hc with h | h
          · exact hdigits c h
          · exact isDigit_of_mem_zeros h
        · rw [List.head?_append, List.head?_eq_some_head hne, Option.some_or,
            ← List.head?_eq_some_head]
          intro h
          have h1 := hhead h
          have h2 := hzero h
          rw [h1, List.length_singleton] at hk
          rw [h1, show k = 0 by omega]
          rfl
      have hspells := @spellsNumber_decimal negative _ ['0'] [] none hwhole (by simp [isDigit])
        .none (.inl (by simp))
      have hvalue : Nat.ofDigitChars 10 (digits ++ List.replicate k '0' ++ ['0']) 0
          = 10 ^ (k + 1) * Nat.ofDigitChars 10 digits 0 := by
        rw [List.append_assoc, show List.replicate k '0' ++ ['0'] = List.replicate (k + 1) '0' from
          List.replicate_succ'.symm, Nat.ofDigitChars_append, Nat.ofDigitChars_replicate_zero]
      rw [hvalue, ofDecimal_mul_pow] at hspells
      have hexponent :
          (none : Option Int).getD 0 - (['0'] : List Char).length + ((k + 1 : Nat) : Int)
          = leading + 1 - digits.length := by
        simp only [Option.getD_none, List.length_singleton]
        omega
      rw [hexponent] at hspells
      simpa [pointed] using hspells
    · -- the point stands between two digits
      have hdrop : digits.drop (leading.toNat + 1) ≠ [] := by
        simp only [ne_eq, List.drop_eq_nil_iff]
        exact hfits
      have hwhole : IsWhole (digits.take (leading.toNat + 1)) := by
        refine ⟨by simp [hne], fun c hc => hdigits c (List.mem_of_mem_take hc), ?_⟩
        intro h
        have h1 := hhead (by rwa [List.head?_take, if_neg (by omega)] at h)
        rw [h1, List.length_singleton] at hfits
        omega
      have hspells := @spellsNumber_decimal negative _ _ [] none hwhole
        (fun c hc => hdigits c (List.mem_of_mem_drop hc)) .none (.inl hdrop)
      rw [List.take_append_drop, pointed_of_ne_nil hdrop] at hspells
      have hexponent : (none : Option Int).getD 0 - (digits.drop (leading.toNat + 1)).length
          = leading + 1 - digits.length := by
        simp only [Option.getD_none, List.length_drop]
        omega
      rw [hexponent] at hspells
      have hnone : (digits.drop (leading.toNat + 1)).isEmpty = false := by
        simpa using hdrop
      rw [hnone, if_neg (by simp), show leading.toNat + 1 - digits.length = 0 by omega]
      simpa using hspells

theorem isDigit_of_mem_padDigits {width n : Nat} {c : Char} (h : c ∈ padDigits width n) :
    isDigit c = true := by
  unfold padDigits at h
  rcases List.mem_append.mp h with h | h
  · exact isDigit_of_mem_zeros h
  · exact isDigit_of_mem_toDigits h

theorem padDigits_ne_nil (width n : Nat) : padDigits width n ≠ [] := by
  simp [padDigits, Nat.toDigits_ne_nil]

theorem ofDigitChars_padDigits (width n : Nat) : Nat.ofDigitChars 10 (padDigits width n) 0 = n := by
  unfold padDigits
  rw [ofDigitChars_zeros_append, Nat.ofDigitChars_ten_toDigits]

/-- A written exponent has its sign and its value. -/
theorem spellsExponent_signed (leading : Int) (width : Nat) :
    SpellsExponent (some leading)
      ('e' :: (if leading < 0 then '-' else '+') :: padDigits width leading.natAbs) := by
  have hvalue := ofDigitChars_padDigits width leading.natAbs
  split
  · have hminus := SpellsExponent.minus (.inl (rfl : 'e' = 'e'))
      (padDigits_ne_nil width leading.natAbs) fun c => isDigit_of_mem_padDigits
    rwa [hvalue, show -(leading.natAbs : Int) = leading by omega] at hminus
  · have hplus := SpellsExponent.plus (.inl (rfl : 'e' = 'e'))
      (padDigits_ne_nil width leading.natAbs) fun c => isDigit_of_mem_padDigits
    rwa [hvalue, show (leading.natAbs : Int) = leading by omega] at hplus

theorem spellsNumber_scientific (negative : Bool) {digits : List Char} (hwhole : IsWhole digits)
    (leading : Int) (width : Nat) :
    SpellsNumber negative
      (.float (.ofDecimal negative (Nat.ofDigitChars 10 digits 0) (leading + 1 - digits.length)))
      (scientific digits leading width) := by
  obtain ⟨hne, hdigits, -⟩ := hwhole
  cases digits with
  | nil => exact absurd rfl hne
  | cons d fraction =>
    have hfirst : IsWhole [d] := by
      refine ⟨by simp, fun c hc => ?_, fun h => ?_⟩
      · rw [List.mem_singleton.mp hc]
        exact hdigits d List.mem_cons_self
      · cases h
        rfl
    have hspells := spellsNumber_decimal negative hfirst
      (fun c hc => hdigits c (List.mem_cons_of_mem d hc)) (spellsExponent_signed leading width)
      (.inr (by simp))
    rw [List.singleton_append, Option.getD_some,
      show leading - (fraction.length : Int) = leading + 1 - (d :: fraction).length by
        rw [List.length_cons]
        omega] at hspells
    unfold scientific
    cases fraction with
    | nil => exact hspells
    | cons e fraction => exact hspells

/-- **A decimal is spelled by its text in any layout.** -/
theorem spellsNumber_write (layout : Layout) (negative : Bool) (d : Decimal) :
    SpellsNumber negative (.float (d.toBinary64 negative)) (layout.write d) := by
  have hwhole := isWhole_toDigits d.significand
  have hlength := List.length_pos_iff.mpr hwhole.1
  generalize hleading : (if d.significand = 0 then 0 else d.leadingExponent) = leading
  have hvalue : Binary64.ofDecimal negative (Nat.ofDigitChars 10 (Nat.toDigits 10 d.significand) 0)
      (leading + 1 - (Nat.toDigits 10 d.significand).length) = d.toBinary64 negative := by
    unfold Decimal.toBinary64
    rw [Nat.ofDigitChars_ten_toDigits]
    by_cases h0 : d.significand = 0
    · rw [h0, ofDecimal_zero, ofDecimal_zero]
    · rw [if_neg h0] at hleading
      congr 1
      rw [← hleading]
      unfold Decimal.leadingExponent Decimal.leadingExponent.decimalLength Binary64.decimalLength
      omega
  unfold Layout.write
  dsimp only
  rw [hleading, ← hvalue]
  split
  · refine spellsNumber_positional negative hwhole fun hhead => ?_
    by_cases h0 : d.significand = 0
    · rw [if_pos h0] at hleading
      omega
    · exact absurd hhead (head?_toDigits_ne_zero (by omega))
  · exact spellsNumber_scientific negative hwhole leading layout.exponentWidth

/-- The magnitude of a finite double is spelled by its shortest decimal. -/
theorem spellsNumber_writeUnits (layout : Layout) (negative : Bool) {units : Nat}
    (h : Representable units) :
    SpellsNumber negative (.float (.finite negative units h)) (layout.writeUnits units) := by
  unfold Layout.writeUnits
  split
  · next h0 =>
    subst h0
    have hzero := spellsNumber_write layout negative ⟨0, 0⟩
    rwa [Decimal.toBinary64, ofDecimal_zero] at hzero
  · next h0 =>
    have hshortest := spellsNumber_write layout negative (shortest units)
    rwa [toBinary64_shortest (by omega) h] at hshortest

/-! ## Values -/

theorem spells_signed {negative : Bool} {value : Json} {text : List Char}
    (h : SpellsNumber negative value text) (rest : Text) :
    Spells value (.ofChars (signed negative text) ++ rest) rest := by
  cases negative with
  | false => exact .number h
  | true => exact .negative h

/-- **An integer of not too many digits is spelled by its text.** -/
theorem spells_int {n : Int} (h : (Nat.toDigits 10 n.natAbs).length ≤ maxDigits)
    (rest : Text) : Spells (.int n) (.ofChars (writeInt n) ++ rest) rest := by
  unfold writeInt
  split
  · have hspells := spells_signed (spellsNumber_int true h) rest
    rwa [if_pos rfl, show -(n.natAbs : Int) = n by omega] at hspells
  · have hspells := spells_signed (spellsNumber_int false h) rest
    rwa [if_neg (by simp), show (n.natAbs : Int) = n by omega] at hspells

/-- **A double is spelled by its text.** -/
theorem spells_float (x : Binary64) (rest : Text) :
    Spells (.float x) (.ofChars (writeFloat x) ++ rest) rest := by
  cases x with
  | finite negative units h => exact spells_signed (spellsNumber_writeUnits _ negative h) rest
  | infinite negative =>
    cases negative with
    | false => exact .word (by simp [wordValues, writeFloat, signed])
    | true => exact .word (by simp [wordValues, writeFloat, signed])
  | nan => exact .word (by simp [wordValues, writeFloat])

end FlatCode.Json
