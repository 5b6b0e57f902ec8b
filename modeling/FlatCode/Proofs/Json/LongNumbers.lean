import FlatCode.Proofs.Cli.Values
import FlatCode.Proofs.Json.Writing

/-!
# Numbers that are read, and integers that are refused

What is read as a number is spelled as one, and an integer that is refused stands in the text
(`HoldsLong`) with all its digits (`LongRun`). A text that starts with an array or an object may
hold it anywhere, since the readers of items and fields stop at the first refusal; what they took
before is a leading part.

* `exists_number_of_readNumber` — a number that is read is spelled
* `exists_digits_of_readNumber` — an integer that is refused is too long
* `holdsLong_of_readValue`, `longRun_of_readValue` — so is an integer inside a value
-/

namespace FlatCode.Json

open Arguments

variable {s rest : Text} {value : Json} {count : Nat}

/-! ## The parts of a number -/

theorem takeDigits_append_eq (s : Text) : .ofChars (takeDigits s).1 ++ (takeDigits s).2 = s := by
  induction s with
  | nil => rfl
  | cons c s ih =>
    cases c with
    | surrogate n => rfl
    | char c =>
      rw [takeDigits]
      split
      · rw [Text.ofChars_cons, List.cons_append, ih]
      · rfl

theorem isDigit_of_mem_takeDigits {c : Char} (h : c ∈ (takeDigits s).1) : isDigit c = true := by
  induction s with
  | nil => cases h
  | cons d s ih =>
    cases d with
    | surrogate n => cases h
    | char d =>
      rw [takeDigits] at h
      split at h
      · next hd =>
        rcases List.mem_cons.mp h with rfl | h
        · exact hd
        · exact ih h
      · cases h

theorem minusSign_eq (s : Text) :
    .ofChars (signed (minusSign s).1 []) ++ (minusSign s).2 = s := by
  unfold minusSign
  split
  · rfl
  · rfl

theorem wholeDigits_append_eq (s : Text) :
    .ofChars (wholeDigits s).1 ++ (wholeDigits s).2 = s := by
  unfold wholeDigits
  split
  · rfl
  · exact takeDigits_append_eq _

/-- The digits of a whole part do not start with zero unless that is all of them. -/
theorem isWhole_wholeDigits (h : (wholeDigits s).1 ≠ []) : IsWhole (wholeDigits s).1 := by
  by_cases hzero : s.head? = some (.char '0')
  · obtain ⟨behind, rfl⟩ := List.head?_eq_some_iff.mp hzero
    exact ⟨h, by simp [wholeDigits, isDigit], fun _ => rfl⟩
  · rw [wholeDigits_of_head hzero] at h ⊢
    refine ⟨h, fun c hc => isDigit_of_mem_takeDigits hc, fun hhead => ?_⟩
    -- digits that start with zero are the start of the text
    obtain ⟨digits, hdigits⟩ := List.head?_eq_some_iff.mp hhead
    have heq := takeDigits_append_eq s
    rw [hdigits] at heq
    exact absurd (heq ▸ rfl) hzero

theorem fractionDigits_append_eq (s : Text) :
    .ofChars (pointed (fractionDigits s).1) ++ (fractionDigits s).2 = s := by
  unfold fractionDigits
  split
  · next behind =>
    have hdigits := takeDigits_append_eq behind
    split
    · rfl
    · next digits tail hne heq =>
      rw [heq] at hdigits
      rw [← hdigits, pointed, Text.ofChars_cons, List.cons_append]
      exact hne
  · rfl

theorem isDigit_of_mem_fractionDigits {c : Char} (h : c ∈ (fractionDigits s).1) :
    isDigit c = true := by
  unfold fractionDigits at h
  split at h
  · next behind =>
    split at h
    · cases h
    · next digits tail hne heq => exact isDigit_of_mem_takeDigits (by rwa [heq])
  · cases h

/-- The sign of an exponent is one of the three that there are. -/
theorem exponentSign_cases (s : Text) :
    (exponentSign s = (false, s)) ∨
      (∃ behind, s = .char '+' :: behind ∧ exponentSign s = (false, behind)) ∨
      ∃ behind, s = .char '-' :: behind ∧ exponentSign s = (true, behind) := by
  unfold exponentSign
  split
  · exact .inr (.inr ⟨_, rfl, rfl⟩)
  · exact .inr (.inl ⟨_, rfl, rfl⟩)
  · exact .inl rfl

/-- What is read as an exponent is spelled as one. -/
theorem exists_text_of_exponentPart (s : Text) :
    ∃ text, SpellsExponent (exponentPart s).1 text ∧
      .ofChars text ++ (exponentPart s).2 = s := by
  unfold exponentPart
  split
  · exact ⟨[], .none, rfl⟩
  · next mark behind =>
    split
    · next hmark =>
      obtain ⟨mark, rfl, hletter⟩ : ∃ c, mark = .char c ∧ (c = 'e' ∨ c = 'E') := by
        simp only [Bool.or_eq_true, decide_eq_true_eq] at hmark
        rcases hmark with rfl | rfl
        · exact ⟨_, rfl, .inl rfl⟩
        · exact ⟨_, rfl, .inr rfl⟩
      have hsign := exponentSign_cases behind
      generalize exponentSign behind = sign at hsign
      obtain ⟨negative, tail⟩ := sign
      have hdigits := takeDigits_append_eq tail
      have hall := fun c => isDigit_of_mem_takeDigits (s := tail) (c := c)
      dsimp only
      split
      · exact ⟨[], .none, rfl⟩
      · next digits rest hne heq =>
        rw [heq] at hdigits hall
        subst hdigits
        rcases hsign with h | ⟨_, rfl, h⟩ | ⟨_, rfl, h⟩
        · cases h
          exact ⟨_, .plain hletter hne hall, rfl⟩
        · cases h
          exact ⟨_, .plus hletter hne hall, rfl⟩
        · cases h
          exact ⟨_, .minus hletter hne hall, rfl⟩
    · exact ⟨[], .none, rfl⟩

/-! ## Numbers -/

/-- Whether a text as a whole is a number. -/
def IsNumber (text : List Char) : Prop :=
  ∃ negative unsigned value, text = signed negative unsigned ∧ SpellsNumber negative value unsigned

/-- The sign of a number stands in front of its digits. -/
theorem ofChars_signed (negative : Bool) (text : List Char) :
    Text.ofChars (signed negative text) = .ofChars (signed negative []) ++ .ofChars text := by
  cases negative with
  | false => rfl
  | true => rfl

/-- No number stands in front of a text, or its parts do and tell what is read. -/
theorem readNumber_cases (s : Text) :
    readNumber s = faultAt .expectingValue s ∨
    ∃ negative whole fraction exponentText exponent rest,
      s = .ofChars (signed negative (whole ++ (pointed fraction ++ exponentText))) ++ rest ∧
      IsWhole whole ∧ (∀ c ∈ fraction, isDigit c = true) ∧ SpellsExponent exponent exponentText ∧
      readNumber s
        = (numberOf negative whole fraction exponent).map fun value => (value, rest) := by
  rw [readNumber_eq]
  have hsign := minusSign_eq s
  generalize minusSign s = sign at hsign
  obtain ⟨negative, unsigned⟩ := sign
  have hwhole := wholeDigits_append_eq unsigned
  have hisWhole := isWhole_wholeDigits (s := unsigned)
  split
  · exact .inl rfl
  · next whole behind hne heq =>
    rw [heq] at hwhole hisWhole
    obtain ⟨exponentText, hexponent, htail⟩ :=
      exists_text_of_exponentPart (fractionDigits behind).2
    refine .inr ⟨negative, whole, _, exponentText, _, _, ?_, hisWhole hne,
      fun c => isDigit_of_mem_fractionDigits, hexponent, rfl⟩
    rw [← hsign, ofChars_signed negative (_ ++ _), Text.ofChars_append, Text.ofChars_append,
      List.append_assoc, List.append_assoc, List.append_assoc, htail, fractionDigits_append_eq,
      hwhole]

/-- **What is read as a number is spelled as one.** -/
theorem exists_number_of_readNumber (h : readNumber s = .ok (value, rest)) :
    ∃ negative unsigned, s = .ofChars (signed negative unsigned) ++ rest ∧
      SpellsNumber negative value unsigned := by
  rcases readNumber_cases s with hfault |
    ⟨negative, whole, fraction, exponentText, exponent, behind, hs, hwhole, hfraction, hexponent,
      hread⟩
  · rw [hfault] at h
    cases h
  · cases hnumber : numberOf negative whole fraction exponent with
    | error e =>
      rw [hread, hnumber] at h
      cases h
    | ok v =>
      rw [hread, hnumber] at h
      cases h
      exact ⟨negative, _, hs, .parts hwhole hfraction hexponent hnumber⟩

theorem numberOf_eq_error {negative : Bool} {whole fraction : List Char} {exponent : Option Int}
    {e : ReadError} (h : numberOf negative whole fraction exponent = .error e) :
    e = .tooManyDigits whole.length ∧ maxDigits < whole.length := by
  unfold numberOf at h
  split at h
  · split at h
    · next hlong =>
      cases h
      exact ⟨rfl, hlong⟩
    · cases h
  · cases h

/-- **An integer that is refused has too many digits**, and these are in front of the text. -/
theorem exists_digits_of_readNumber (h : readNumber s = .error (.tooManyDigits count)) :
    ∃ negative digits rest, s = .ofChars (signed negative digits) ++ rest ∧ IsWhole digits ∧
      digits.length = count ∧ maxDigits < count := by
  rcases readNumber_cases s with hfault |
    ⟨negative, whole, fraction, exponentText, exponent, behind, hs, hwhole, -, -, hread⟩
  · rw [hfault] at h
    cases h
  · cases hnumber : numberOf negative whole fraction exponent with
    | ok v =>
      rw [hread, hnumber] at h
      cases h
    | error e =>
      rw [hread, hnumber] at h
      cases h
      obtain ⟨hcount, hlong⟩ := numberOf_eq_error hnumber
      cases hcount
      rw [ofChars_signed, Text.ofChars_append, ← List.append_assoc, ← ofChars_signed negative whole,
        List.append_assoc] at hs
      exact ⟨negative, whole, _, hs, hwhole, rfl, hlong⟩

theorem minusSign_signed {negative : Bool} {c : Char} (hc : isDigit c = true)
    (digits : List Char) (rest : Text) :
    minusSign (.ofChars (signed negative (c :: digits)) ++ rest)
      = (negative, .ofChars (c :: digits) ++ rest) := by
  cases negative with
  | true => rfl
  | false =>
    refine minusSign_of_head ?_
    rintro hhead
    cases hhead
    exact absurd hc (by decide)

/-- **An integer of too many digits is refused** where a value is read. -/
theorem readValue_of_long {negative : Bool} {digits : List Char} (hwhole : IsWhole digits)
    (hlong : maxDigits < digits.length) (hrest : endsNumber rest = true) :
    readValue (.ofChars (signed negative digits) ++ rest)
      = .error (.tooManyDigits digits.length) := by
  obtain ⟨hdigit, hpoint⟩ := exponent_head .none hrest
  have hparts := wholeDigits_append hwhole hdigit
  have hfraction := @fractionDigits_pointed [] _ (by simp) hdigit hpoint
  have hexponent := exponentPart_of_spells .none hrest
  have hnumber : numberOf negative digits [] none = .error (.tooManyDigits digits.length) := by
    unfold numberOf
    rw [if_pos (by rfl), if_pos hlong]
  rw [Text.ofChars_nil, List.nil_append] at hparts hexponent
  rw [pointed, Text.ofChars_nil, List.nil_append, List.nil_append] at hfraction
  cases digits with
  | nil => exact absurd rfl hwhole.1
  | cons c digits =>
    have hc := hwhole.2.1 c List.mem_cons_self
    have hread : readNumber (.ofChars (signed negative (c :: digits)) ++ rest)
        = .error (.tooManyDigits (c :: digits).length) := by
      rw [readNumber_eq, minusSign_signed hc]
      simp only [hparts, hfraction, hexponent, hnumber]
      rfl
    unfold readValue
    rw [← hread]
    cases negative with
    | false => exact valueWithin_digit hc _ _
    | true => exact valueWithin_minus hc _ _

/-! ## Runs of digits -/

/-- Whether more digits stand in a row in a text than an integer may have. -/
def LongRun (s : Text) : Prop :=
  ∃ digits, Text.ofChars digits <:+: s ∧ maxDigits < digits.length ∧ ∀ c ∈ digits, isDigit c = true

theorem LongRun.of_suffix (h : LongRun rest) (hrest : rest <:+ s) : LongRun s := by
  obtain ⟨digits, hinfix, hlong, hdigits⟩ := h
  exact ⟨digits, hinfix.trans hrest.isInfix, hlong, hdigits⟩

/-- A short text has no long run. -/
theorem not_longRun_of_length (h : s.length ≤ maxDigits) : ¬LongRun s := by
  rintro ⟨digits, hinfix, hlong, -⟩
  have := hinfix.length_le
  rw [Text.length_ofChars] at this
  omega

theorem longRun_of_readNumber (h : readNumber s = .error (.tooManyDigits count)) : LongRun s := by
  obtain ⟨negative, digits, behind, rfl, hwhole, rfl, hlong⟩ := exists_digits_of_readNumber h
  refine ⟨digits, ?_, hlong, hwhole.2.1⟩
  cases negative with
  | false => exact (List.prefix_append (Text.ofChars digits) behind).isInfix
  | true => exact ⟨[.char '-'], behind, rfl⟩

/-! ### Values

No string is refused for its digits. For arrays and objects the induction is on the steps of the
four readers: a refusal inside stands in a rest of the text, since what was read before it is a
leading part.
-/

theorem readUnicodeEscape_ne_tooManyDigits (s : Text) (count : Nat) :
    readUnicodeEscape s ≠ .error (.tooManyDigits count) := by
  unfold readUnicodeEscape
  split
  · nofun
  · split
    · split
      · nofun
      · split
        · nofun
        · split
          · nofun
          · nofun
    · nofun

theorem readElement_ne_tooManyDigits (opening : Nat) (s : Text) (count : Nat) :
    readElement opening s ≠ .error (.tooManyDigits count) := by
  unfold readElement
  split
  · nofun
  · nofun
  · nofun
  · next behind =>
    have hescape := readUnicodeEscape_ne_tooManyDigits behind count
    cases hc : readUnicodeEscape behind with
    | ok reading => nofun
    | error e =>
      rw [hc] at hescape
      rintro ⟨⟩
      exact hescape rfl
  · split
    · nofun
    · nofun
  · split
    · nofun
    · nofun

theorem stringWithin_ne_tooManyDigits (opening steps : Nat) (s : Text) (count : Nat) :
    stringWithin opening steps s ≠ .error (.tooManyDigits count) := by
  intro h
  induction steps generalizing s with
  | zero => cases h
  | succ steps ih =>
    rw [stringWithin] at h
    split at h
    · next he =>
      cases h
      exact readElement_ne_tooManyDigits opening s count he
    · cases h
    · next behind _ =>
      split at h
      · next he =>
        cases h
        exact ih behind he
      · cases h

theorem readString_ne_tooManyDigits (s : Text) (count : Nat) :
    readString s ≠ .error (.tooManyDigits count) :=
  stringWithin_ne_tooManyDigits _ _ s count

theorem suffix_of_passes {place last : Cli.Quotation} (h : Cli.Passes place s last rest) :
    rest <:+ s := by
  induction h with
  | stop => exact List.suffix_refl _
  | step _ _ ih => exact ih.trans (List.suffix_cons _ _)

theorem suffix_skipSpaces (s : Text) : skipSpaces s <:+ s := List.dropWhile_suffix _

/-- What a reader leaves is a rest of the text. -/
theorem suffix_of_readValue (h : readValue s = .ok (value, rest)) : rest <:+ s :=
  suffix_of_passes (Cli.passes_readValue h)

/-- Whether an integer that is refused stands somewhere in a text. -/
def HoldsLong (count : Nat) (s : Text) : Prop :=
  ∃ number, number <:+ s ∧ readNumber number = .error (.tooManyDigits count)

theorem HoldsLong.of_suffix (h : HoldsLong count rest) (hrest : rest <:+ s) :
    HoldsLong count s := by
  obtain ⟨number, hnumber, hread⟩ := h
  exact ⟨number, hnumber.trans hrest, hread⟩

theorem HoldsLong.longRun (h : HoldsLong count s) : LongRun s := by
  obtain ⟨number, hnumber, hread⟩ := h
  exact (longRun_of_readNumber hread).of_suffix hnumber

/-- A refusal by one of the four readers is that of an integer in the text. -/
theorem holdsLong_within (steps : Nat) :
    (∀ s count, valueWithin steps s = .error (.tooManyDigits count) → HoldsLong count s) ∧
    (∀ s count, itemsWithin steps s = .error (.tooManyDigits count) → HoldsLong count s) ∧
    (∀ s count, fieldsWithin steps s = .error (.tooManyDigits count) → HoldsLong count s) ∧
    (∀ s count, readField steps s = .error (.tooManyDigits count) → HoldsLong count s) := by
  induction steps with
  | zero => simp [valueWithin, itemsWithin, fieldsWithin, readField, faultAt]
  | succ steps ih =>
    obtain ⟨ihValue, ihItems, ihFields, ihField⟩ := ih
    obtain ⟨passValue, -, -, passField⟩ := Cli.passes_within steps
    refine ⟨?_, ?_, ?_, ?_⟩
    · intro s count h
      rw [valueWithin.eq_def] at h
      dsimp only at h
      split at h
      · split at h
        · next he =>
          cases h
          exact absurd he (readString_ne_tooManyDigits _ count)
        · cases h
      · next behind =>
        split at h
        · cases h
        · split at h
          · next he =>
            cases h
            exact (ihItems _ _ he).of_suffix
              ((suffix_skipSpaces behind).trans (List.suffix_cons _ _))
          · cases h
      · next behind =>
        split at h
        · cases h
        · split at h
          · next he =>
            cases h
            exact (ihFields _ _ he).of_suffix
              ((suffix_skipSpaces behind).trans (List.suffix_cons _ _))
          · cases h
      · split at h
        · cases h
        · exact ⟨s, List.suffix_refl s, h⟩
    · intro s count h
      rw [itemsWithin] at h
      split at h
      · next he =>
        cases h
        exact ihValue _ _ he
      · next behind hitem =>
        have hbehind := (suffix_skipSpaces behind).trans (suffix_of_passes (passValue _ _ _ hitem))
        split at h
        · cases h
        · next tail heq =>
          rw [heq] at hbehind
          split at h
          · next he =>
            cases h
            exact (ihItems _ _ he).of_suffix
              ((suffix_skipSpaces tail).trans ((List.suffix_cons _ _).trans hbehind))
          · cases h
        · cases h
    · intro s count h
      rw [fieldsWithin] at h
      split at h
      · next he =>
        cases h
        exact ihField _ _ he
      · next behind hfield =>
        have hbehind := (suffix_skipSpaces behind).trans (suffix_of_passes (passField _ _ _ hfield))
        split at h
        · cases h
        · next tail heq =>
          rw [heq] at hbehind
          split at h
          · next he =>
            cases h
            exact (ihFields _ _ he).of_suffix
              ((suffix_skipSpaces tail).trans ((List.suffix_cons _ _).trans hbehind))
          · cases h
        · cases h
    · intro s count h
      rw [readField.eq_def] at h
      dsimp only at h
      split at h
      · split at h
        · next he =>
          cases h
          exact absurd he (readString_ne_tooManyDigits _ count)
        · next behind hkey =>
          have hbehind := (suffix_skipSpaces behind).trans
            ((suffix_of_passes (Cli.passes_readString hkey)).trans (List.suffix_cons (.char '"') _))
          split at h
          · next tail heq =>
            rw [heq] at hbehind
            split at h
            · next he =>
              cases h
              exact (ihValue _ _ he).of_suffix
                ((suffix_skipSpaces tail).trans ((List.suffix_cons _ _).trans hbehind))
            · cases h
          · cases h
      · cases h

/-- **A text that is refused for an integer holds one that is too long.** -/
theorem holdsLong_of_readValue (h : readValue s = .error (.tooManyDigits count)) :
    HoldsLong count s :=
  (holdsLong_within _).1 s count h

/-- **So it has a long run of digits.** -/
theorem longRun_of_readValue (h : readValue s = .error (.tooManyDigits count)) : LongRun s :=
  (holdsLong_of_readValue h).longRun

end FlatCode.Json
