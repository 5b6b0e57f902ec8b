import FlatCode.Program.Arguments
import FlatCode.Proofs.Json.Reading

/-!
# Bare words

A string is written bare when its characters allow it (`looksBare`) and no JSON value takes it
(`takesJson`): that is what `IsBare` says, and `write_string_eq_bare_iff` that it is all.

The JSON reader may go on behind a blank only where it opened a quote or a bracket. Words and
numbers are over there, so whether such a text starts with a value does not depend on what stands
behind the blank (`takesJson_append`).

* `takesJson_append` — a text that opens nothing is judged by itself
* `write_string_eq_bare_iff` — which strings are written bare
* `readArgument_bare`, `ne_string_of_takesJson` — what is read where a bare word stands
-/

namespace FlatCode.Arguments

open Json Text

/-! ## Blanks end numbers and words -/

/-- A text at a boundary goes on with no number. -/
theorem endsNumber_of_atBoundary {rest : Text} (h : atBoundary rest = true) :
    endsNumber rest = true := by
  unfold endsNumber
  split
  · next c rest =>
    rw [atBoundary] at h
    have hne : ∀ {d : Char}, isBlank (.char d) = false → c ≠ d := by
      rintro d hd rfl
      rw [h] at hd
      cases hd
    have hdigit : isDigit c = false := by
      unfold isBlank at h
      unfold isDigit
      rw [CodePoint.toNat_char] at h
      simp only [Bool.or_eq_true, Bool.and_eq_true, decide_eq_true_eq, beq_iff_eq] at h
      simp only [Bool.and_eq_false_iff, decide_eq_false_iff_not]
      omega
    simp [hdigit, hne (show isBlank (.char '.') = false from rfl),
      hne (show isBlank (.char 'e') = false from rfl),
      hne (show isBlank (.char 'E') = false from rfl)]
  · rfl

/-- No text at a boundary starts with a visible character. -/
theorem head?_ne_of_atBoundary {rest : Text} (h : atBoundary rest = true) {c : CodePoint}
    (hc : isBlank c = false) : rest.head? ≠ some c := by
  cases rest with
  | nil => simp
  | cons d rest =>
    rintro heq
    obtain rfl := Option.some.inj heq
    rw [atBoundary, hc] at h
    cases h

theorem atBoundary_append {s rest : Text} (h : atBoundary rest = true) :
    atBoundary (s ++ rest) = atBoundary s := by
  cases s with
  | nil => exact h
  | cons c s => rfl

theorem takeDigits_append_boundary (s : Text) {rest : Text} (h : NoDigit rest) :
    takeDigits (s ++ rest) = ((takeDigits s).1, (takeDigits s).2 ++ rest) := by
  induction s with
  | nil => exact takeDigits_of_noDigit h
  | cons c s ih =>
    cases c with
    | surrogate n => rfl
    | char c =>
      rw [List.cons_append, takeDigits, takeDigits]
      split
      · rw [ih]
      · rfl

variable {rest : Text}

/-- Whole parts start with a zero or are digits. -/
theorem wholeDigits_of_head {s : Text} (h : s.head? ≠ some (.char '0')) :
    wholeDigits s = takeDigits s := by
  rw [wholeDigits]
  rintro behind rfl
  exact h rfl

theorem fractionDigits_of_head {s : Text} (h : s.head? ≠ some (.char '.')) :
    fractionDigits s = ([], s) := by
  rw [fractionDigits]
  rintro behind rfl
  exact h rfl

theorem exponentSign_of_head {s : Text} (hminus : s.head? ≠ some (.char '-'))
    (hplus : s.head? ≠ some (.char '+')) : exponentSign s = (false, s) := by
  rw [exponentSign]
  · rintro behind rfl
    exact hminus rfl
  · rintro behind rfl
    exact hplus rfl

theorem wholeDigits_append_boundary (s : Text) (h : atBoundary rest = true) :
    wholeDigits (s ++ rest) = ((wholeDigits s).1, (wholeDigits s).2 ++ rest) := by
  have hdigit := noDigit_of_endsNumber (endsNumber_of_atBoundary h)
  cases s with
  | nil =>
    rw [List.nil_append, wholeDigits_of_head (head?_ne_of_atBoundary h (by decide)),
      wholeDigits_of_head (by simp)]
    exact takeDigits_append_boundary [] hdigit
  | cons c s =>
    by_cases hc : c = .char '0'
    · subst hc
      rfl
    · rw [wholeDigits_of_head (by simp [hc]), wholeDigits_of_head (by simp [hc])]
      exact takeDigits_append_boundary (c :: s) hdigit

theorem fractionDigits_append_boundary (s : Text) (h : atBoundary rest = true) :
    fractionDigits (s ++ rest) = ((fractionDigits s).1, (fractionDigits s).2 ++ rest) := by
  have hdigit := noDigit_of_endsNumber (endsNumber_of_atBoundary h)
  cases s with
  | nil =>
    rw [List.nil_append, fractionDigits_of_head (head?_ne_of_atBoundary h (by decide)),
      fractionDigits_of_head (by simp)]
    rfl
  | cons c s =>
    by_cases hc : c = .char '.'
    · subst hc
      rw [List.cons_append, fractionDigits, fractionDigits, takeDigits_append_boundary s hdigit]
      obtain ⟨digits, behind⟩ := takeDigits s
      cases digits with
      | nil => rfl
      | cons d digits => rfl
    · rw [fractionDigits_of_head (by simp [hc]), fractionDigits_of_head (by simp [hc])]

theorem exponentSign_append_boundary (s : Text) (h : atBoundary rest = true) :
    exponentSign (s ++ rest) = ((exponentSign s).1, (exponentSign s).2 ++ rest) := by
  cases s with
  | nil =>
    rw [List.nil_append, exponentSign_of_head (head?_ne_of_atBoundary h (by decide))
      (head?_ne_of_atBoundary h (by decide)), exponentSign_of_head (by simp) (by simp)]
    rfl
  | cons c s =>
    by_cases hminus : c = .char '-'
    · subst hminus
      rfl
    by_cases hplus : c = .char '+'
    · subst hplus
      rfl
    rw [exponentSign_of_head (by simp [hminus]) (by simp [hplus]),
      exponentSign_of_head (by simp [hminus]) (by simp [hplus])]

theorem exponentPart_append_boundary (s : Text) (h : atBoundary rest = true) :
    exponentPart (s ++ rest) = ((exponentPart s).1, (exponentPart s).2 ++ rest) := by
  have hdigit := noDigit_of_endsNumber (endsNumber_of_atBoundary h)
  cases s with
  | nil => exact exponentPart_of_spells .none (endsNumber_of_atBoundary h)
  | cons c s =>
    rw [List.cons_append, exponentPart, exponentPart]
    split
    · have hdigits := takeDigits_append_boundary (exponentSign s).2 hdigit
      simp only [exponentSign_append_boundary s h, hdigits]
      obtain ⟨digits, behind⟩ := takeDigits (exponentSign s).2
      cases digits with
      | nil => rfl
      | cons d digits => rfl
    · rfl

/-- The sign in front of a number, and the text behind it. -/
def minusSign : Text → Bool × Text
  | .char '-' :: rest => (true, rest)
  | s => (false, s)

theorem minusSign_of_head {s : Text} (h : s.head? ≠ some (.char '-')) :
    minusSign s = (false, s) := by
  rw [minusSign]
  rintro behind rfl
  exact h rfl

theorem minusSign_append_boundary (s : Text) (h : atBoundary rest = true) :
    minusSign (s ++ rest) = ((minusSign s).1, (minusSign s).2 ++ rest) := by
  cases s with
  | nil =>
    rw [List.nil_append, minusSign_of_head (head?_ne_of_atBoundary h (by decide)),
      minusSign_of_head (by simp)]
    rfl
  | cons c s =>
    by_cases hc : c = .char '-'
    · subst hc
      rfl
    · rw [minusSign_of_head (by simp [hc]), minusSign_of_head (by simp [hc])]

/-- The reader of numbers, with its sign cut off by name. -/
theorem readNumber_eq (s : Text) :
    readNumber s = match wholeDigits (minusSign s).2 with
      | ([], _) => faultAt .expectingValue s
      | (whole, behind) =>
        (numberOf (minusSign s).1 whole (fractionDigits behind).1
          (exponentPart (fractionDigits behind).2).1).map fun value =>
            (value, (exponentPart (fractionDigits behind).2).2) := by
  unfold readNumber
  split
  next negative unsigned heq =>
  split at heq
  · cases heq
    rfl
  · next hminus =>
    cases heq
    have hsign : minusSign s = (false, s) := by
      rw [minusSign]
      exact hminus
    exact hsign ▸ rfl

/-! ## What takes a text -/

/-- Whether a reading ends at a boundary; a refused integer is over as well. -/
def endsAtBoundary : Reading Json → Bool
  | .ok (_, rest) => atBoundary rest
  | .error (.tooManyDigits _) => true
  | .error (.malformed _ _) => false

/-- Whether a text starts with a JSON value that is over at a boundary. -/
def takesJson (s : Text) : Bool := endsAtBoundary (readValue s)

theorem endsAtBoundary_readNumber_append (s : Text) (h : atBoundary rest = true) :
    endsAtBoundary (readNumber (s ++ rest)) = endsAtBoundary (readNumber s) := by
  rw [readNumber_eq, readNumber_eq, minusSign_append_boundary s h,
    wholeDigits_append_boundary _ h]
  obtain ⟨whole, behind⟩ := wholeDigits (minusSign s).2
  cases whole with
  | nil => rfl
  | cons c whole =>
    simp only [fractionDigits_append_boundary _ h, exponentPart_append_boundary _ h]
    cases numberOf (minusSign s).1 (c :: whole) (fractionDigits behind).1
      (exponentPart (fractionDigits behind).2).1 with
    | error e => rfl
    | ok value => exact atBoundary_append h

/-- A word is over where a blank stands. -/
theorem behindWord?_append_boundary {word : List Char}
    (hword : ∀ c ∈ word, isBlank (.char c) = false) (s : Text) (h : atBoundary rest = true) :
    behindWord? word (s ++ rest) = (behindWord? word s).map (· ++ rest) := by
  induction word generalizing s with
  | nil => rfl
  | cons w word ih =>
    cases s with
    | nil =>
      cases rest with
      | nil => rfl
      | cons c rest =>
        have hne : c ≠ .char w := by
          rintro rfl
          rw [atBoundary, hword w List.mem_cons_self] at h
          cases h
        rw [List.nil_append, behindWord?, behindWord?, if_neg hne]
        rfl
    | cons c s =>
      rw [List.cons_append, behindWord?, behindWord?]
      split
      · exact ih (fun d hd => hword d (List.mem_cons_of_mem _ hd)) s
      · rfl

theorem readWord?_append_boundary (s : Text) (h : atBoundary rest = true) :
    readWord? (s ++ rest) = (readWord? s).map fun (value, behind) => (value, behind ++ rest) := by
  have hblank : ∀ pair ∈ wordValues, ∀ c ∈ pair.1, isBlank (.char c) = false := by
    intro pair hpair
    simp only [wordValues, List.mem_cons, List.not_mem_nil, or_false] at hpair
    rcases hpair with rfl | rfl | rfl | rfl | rfl | rfl <;> simp [isBlank]
  unfold readWord?
  generalize wordValues = words at hblank
  induction words with
  | nil => rfl
  | cons pair words ih =>
    have hword := behindWord?_append_boundary (hblank pair List.mem_cons_self) s h
    simp only [List.findSome?_cons, hword]
    cases behindWord? pair.1 s with
    | none => exact ih fun p hp => hblank p (List.mem_cons_of_mem _ hp)
    | some behind => rfl

/-- **A text that opens no quote and no bracket is judged by itself.** -/
theorem takesJson_append {c : CodePoint} {s : Text} (hquote : c ≠ .char '"')
    (harray : c ≠ .char '[') (hobject : c ≠ .char '{') (h : atBoundary rest = true) :
    takesJson (c :: s ++ rest) = takesJson (c :: s) := by
  have hword := readWord?_append_boundary (c :: s) h
  unfold takesJson readValue
  rw [List.cons_append] at hword ⊢
  rw [valueWithin_default hquote harray hobject, valueWithin_default hquote harray hobject, hword]
  cases readWord? (c :: s) with
  | none => exact endsAtBoundary_readNumber_append (c :: s) h
  | some reading => exact atBoundary_append h

/-! ## No string is read but from a quote -/

theorem ne_string_of_readNumber {s behind : Text} {value : Json}
    (h : readNumber s = .ok (value, behind)) (word : Text) : value ≠ .string word := by
  rw [readNumber_eq] at h
  split at h
  · cases h
  · next whole tail _ _ =>
    generalize hnumber : numberOf _ _ _ _ = number at h
    cases number with
    | error e => cases h
    | ok v =>
      cases h
      unfold numberOf at hnumber
      split at hnumber
      · split at hnumber
        · cases hnumber
        · cases hnumber
          exact Json.noConfusion
      · cases hnumber
        exact Json.noConfusion

theorem ne_string_of_readWord? {s behind : Text} {value : Json}
    (h : readWord? s = some (value, behind)) (word : Text) : value ≠ .string word := by
  obtain ⟨⟨text, v⟩, hmem, h⟩ := List.exists_of_findSome?_eq_some h
  obtain ⟨_, _, h⟩ := Option.map_eq_some_iff.mp h
  obtain ⟨rfl, _⟩ := Prod.mk.inj h
  simp only [wordValues, List.mem_cons, Prod.mk.injEq, List.not_mem_nil, or_false] at hmem
  rcases hmem with ⟨_, rfl⟩ | ⟨_, rfl⟩ | ⟨_, rfl⟩ | ⟨_, rfl⟩ | ⟨_, rfl⟩ | ⟨_, rfl⟩ <;> simp

/-- **Without a quote in front no string is read.** -/
theorem ne_string_of_readValue {c : CodePoint} {s behind : Text} {value : Json}
    (hquote : c ≠ .char '"') (h : readValue (c :: s) = .ok (value, behind)) (word : Text) :
    value ≠ .string word := by
  unfold readValue at h
  rw [valueWithin.eq_def] at h
  dsimp only at h
  split at h
  · next heq => exact absurd (List.cons.inj heq).1 hquote
  · split at h
    · cases h
      simp
    · split at h
      · cases h
      · cases h
        simp
  · split at h
    · cases h
      simp
    · split at h
      · cases h
      · cases h
        simp
  · split at h
    · next hword =>
      cases h
      exact ne_string_of_readWord? hword word
    · exact ne_string_of_readNumber h word

/-! ## What is read as an argument -/

section Argument

variable {column : Nat} {s : Text} {value : Json} {e : ArgumentError}

/-- A bare word is read where no quote stands. -/
theorem readBare_eq_ok_iff : readBare column s = .ok (value, rest) ↔
    s.head? ≠ some (.char '"') ∧ value = .string (firstWord s) ∧
      rest = s.dropWhile fun c => !isBlank c := by
  unfold readBare
  split
  · simp
  · next hquote =>
    have hhead : s.head? ≠ some (.char '"') := by
      intro h
      obtain ⟨behind, rfl⟩ := List.head?_eq_some_iff.mp h
      exact hquote behind rfl
    constructor
    · intro h
      cases h
      exact ⟨hhead, rfl, rfl⟩
    · rintro ⟨-, rfl, rfl⟩
      rfl

theorem readArgument_of_takesJson (h : takesJson s = false) :
    readArgument column s = readBare column s := by
  unfold takesJson at h
  unfold readArgument
  split
  · next hvalue =>
    rw [hvalue] at h
    cases h
  · rfl
  · next hvalue =>
    rw [hvalue, endsAtBoundary] at h
    exact if_neg (by simp [h])

theorem readArgument_of_readValue (h : readValue s = .ok (value, rest))
    (hrest : atBoundary rest = true) : readArgument column s = .ok (value, rest) := by
  rw [readArgument, h]
  exact if_pos hrest

theorem readArgument_of_tooManyDigits {count : Nat}
    (h : readValue s = .error (.tooManyDigits count)) :
    readArgument column s = .error (.tooManyDigits count) := by
  rw [readArgument, h]

/-- A text is taken by a value, or by an integer that is too long. -/
theorem takesJson_eq_true_iff : takesJson s = true ↔
    (∃ value rest, readValue s = .ok (value, rest) ∧ atBoundary rest = true) ∨
      ∃ count, readValue s = .error (.tooManyDigits count) := by
  unfold takesJson
  cases readValue s with
  | ok reading =>
    constructor
    · intro h
      exact .inl ⟨_, _, rfl, h⟩
    · rintro (⟨value, rest, heq, hrest⟩ | ⟨count, heq⟩)
      · cases heq
        exact hrest
      · cases heq
  | error e => cases e <;> simp [endsAtBoundary]

/-- **An argument is a value where one takes the text, and else a bare word.** -/
theorem readArgument_eq_ok_iff : readArgument column s = .ok (value, rest) ↔
    (readValue s = .ok (value, rest) ∧ atBoundary rest = true) ∨
      (takesJson s = false ∧ readBare column s = .ok (value, rest)) := by
  constructor
  · intro h
    cases htakes : takesJson s with
    | false =>
      rw [readArgument_of_takesJson htakes] at h
      exact .inr ⟨rfl, h⟩
    | true =>
      rcases takesJson_eq_true_iff.mp htakes with ⟨v, r, hvalue, hrest⟩ | ⟨count, hvalue⟩
      · rw [readArgument_of_readValue hvalue hrest] at h
        cases h
        exact .inl ⟨hvalue, hrest⟩
      · rw [readArgument_of_tooManyDigits hvalue] at h
        cases h
  · rintro (⟨hvalue, hrest⟩ | ⟨htakes, hbare⟩)
    · exact readArgument_of_readValue hvalue hrest
    · rw [readArgument_of_takesJson htakes, hbare]

end Argument

/-! ## What is read where a word stands -/

/-- A word that may be written bare starts with no quote, and nowhere is it blank. -/
theorem exists_start_of_looksBare {word : Text} (h : looksBare word = true) :
    ∃ c behind, word = c :: behind ∧ c ≠ .char '"' ∧ ∀ d ∈ word, isBlank d = false := by
  simp only [looksBare, Bool.and_eq_true, Bool.not_eq_true', bne_iff_ne, ne_eq,
    List.any_eq_false] at h
  obtain ⟨⟨hne, hquote⟩, hblank⟩ := h
  cases word with
  | nil => cases hne
  | cons c behind =>
    refine ⟨c, behind, rfl, ?_, fun d hd => by simpa using hblank d hd⟩
    rintro rfl
    exact hquote rfl

theorem firstWord_append {word : Text} (h : ∀ c ∈ word, isBlank c = false)
    (hrest : atBoundary rest = true) :
    firstWord (word ++ rest) = word ∧ (word ++ rest).dropWhile (fun c => !isBlank c) = rest := by
  unfold firstWord
  have hword : ∀ c ∈ word, (!isBlank c) = true := fun c hc => by rw [h c hc]; rfl
  rw [List.takeWhile_append_of_pos hword, List.dropWhile_append_of_pos hword]
  cases rest with
  | nil => simp
  | cons c rest =>
    rw [atBoundary] at hrest
    simp [hrest]

/-- **A bare word is read as itself, unless a JSON value takes the text.** -/
theorem readArgument_bare (column : Nat) {word : Text} (hword : looksBare word = true)
    (hrest : atBoundary rest = true) (h : takesJson (word ++ rest) = false) :
    readArgument column (word ++ rest) = .ok (.string word, rest) := by
  obtain ⟨c, behind, heq, hquote, hblank⟩ := exists_start_of_looksBare hword
  obtain ⟨hfirst, hdrop⟩ := firstWord_append hblank hrest
  have hhead : (word ++ rest).head? ≠ some (.char '"') := by
    rw [heq]
    exact fun hstart => hquote (Option.some.inj hstart)
  rw [readArgument_of_takesJson h]
  exact readBare_eq_ok_iff.mpr ⟨hhead, by rw [hfirst], hdrop.symm⟩

/-- **Where a JSON value takes the text, no string is read.** -/
theorem ne_string_of_takesJson {column : Nat} {c : CodePoint} {s behind : Text} {value : Json}
    (hquote : c ≠ .char '"') (h : takesJson (c :: s) = true)
    (hread : readArgument column (c :: s) = .ok (value, behind)) (word : Text) :
    value ≠ .string word := by
  rcases readArgument_eq_ok_iff.mp hread with ⟨hvalue, -⟩ | ⟨htakes, -⟩
  · exact ne_string_of_readValue hquote hvalue word
  · rw [htakes] at h
    cases h

/-! ## The arguments of a text, one after the other -/

theorem readFrom_nil (column : Nat) : readFrom column [] = .ok [] := by
  unfold readFrom
  rfl

theorem readFrom_blank (column : Nat) {c : CodePoint} (hc : isBlank c = true) (s : Text) :
    readFrom column (c :: s) = readFrom (column + 1) s := by
  rw [readFrom.eq_def]
  exact dif_pos hc

/-- The first argument, then those behind it. -/
theorem readFrom_cons_eq {column : Nat} {c : CodePoint} {s behind : Text} {value : Json}
    (hc : isBlank c = false) (h : readArgument column (c :: s) = .ok (value, behind)) :
    readFrom column (c :: s) =
      (readFrom (column + ((c :: s).length - behind.length)) behind).map (value :: ·) := by
  rw [readFrom.eq_def]
  dsimp only
  rw [dif_neg (by simp [hc])]
  split
  · next heq =>
    rw [h] at heq
    cases heq
  · next heq =>
    rw [h] at heq
    cases heq
    cases readFrom (column + ((c :: s).length - behind.length)) behind with
    | error e => rfl
    | ok values => rfl

/-- The same at some column, where it does not matter. -/
theorem readFrom_cons {column : Nat} {c : CodePoint} {s behind : Text} {value : Json}
    (hc : isBlank c = false) (h : readArgument column (c :: s) = .ok (value, behind)) :
    ∃ next, readFrom column (c :: s) = (readFrom next behind).map (value :: ·) :=
  ⟨_, readFrom_cons_eq hc h⟩

/-- A text that is one argument is read as that argument. -/
theorem read_single {c : CodePoint} {s : Text} {value : Json} (hc : isBlank c = false)
    (h : readArgument 0 (c :: s) = .ok (value, [])) : read (c :: s) = .ok [value] := by
  obtain ⟨next, hfrom⟩ := readFrom_cons hc h
  rw [readFrom_nil] at hfrom
  exact hfrom

theorem readFrom_cons_error {column : Nat} {c : CodePoint} {s : Text} {e : ArgumentError}
    (hc : isBlank c = false) (h : readArgument column (c :: s) = .error e) :
    readFrom column (c :: s) = .error e := by
  rw [readFrom.eq_def]
  dsimp only
  rw [dif_neg (by simp [hc])]
  split
  · next heq =>
    rw [h] at heq
    cases heq
    rfl
  · next heq =>
    rw [h] at heq
    cases heq

/-- **Where a JSON value takes the text, the first argument is no string.** -/
theorem exists_first_of_takesJson {column : Nat} {c : CodePoint} {s : Text} {values : List Json}
    (hquote : c ≠ .char '"') (hc : isBlank c = false) (h : takesJson (c :: s) = true)
    (hread : readFrom column (c :: s) = .ok values) :
    ∃ value others, values = value :: others ∧ ∀ word, value ≠ .string word := by
  cases hfirst : readArgument column (c :: s) with
  | error e =>
    rw [readFrom_cons_error hc hfirst] at hread
    cases hread
  | ok reading =>
    obtain ⟨value, rest⟩ := reading
    obtain ⟨next, hfrom⟩ := readFrom_cons hc hfirst
    rw [hfrom] at hread
    cases hbehind : readFrom next rest with
    | error e =>
      rw [hbehind] at hread
      cases hread
    | ok others =>
      rw [hbehind] at hread
      cases hread
      exact ⟨value, others, rfl, ne_string_of_takesJson hquote h hfirst⟩

/-! ## Which strings are written bare -/

/-- Whether a string is written bare: its characters allow it, and no JSON value takes it. -/
def IsBare (word : Text) : Prop :=
  looksBare word = true ∧ takesJson word = false

instance (word : Text) : Decidable (IsBare word) := inferInstanceAs (Decidable (_ ∧ _))

theorem write_of_isBare {word : Text} (h : IsBare word) :
    write (.string word) = .ok word := by
  obtain ⟨hlooks, htakes⟩ := h
  obtain ⟨c, behind, heq, -, hblank⟩ := exists_start_of_looksBare hlooks
  -- alone the word is read as itself, which is what the writer asks for
  have hfirst := @readArgument_bare [] 0 _ hlooks rfl (by rwa [List.append_nil])
  rw [List.append_nil, heq] at hfirst
  have hread := read_single (hblank c (by simp [heq])) hfirst
  rw [← heq] at hread
  rw [write, if_pos hlooks, hread]
  simp [sameItems, same]

/-- Only a string is the same as a string. -/
theorem same_string_of_ne {value : Json} (h : ∀ word, value ≠ .string word) (word : Text) :
    same value (.string word) = false := by
  cases value with
  | string w => exact absurd rfl (h w)
  | null | bool _ | int _ | float _ | array _ | object _ => simp [same, quantity?]

/-- Text that a JSON value takes is not read back as the string. -/
theorem sameItems_of_takesJson {word : Text} {values : List Json}
    (hlooks : looksBare word = true) (h : takesJson word = true)
    (hread : read word = .ok values) : sameItems values [.string word] = false := by
  obtain ⟨c, behind, heq, hquote, hblank⟩ := exists_start_of_looksBare hlooks
  rw [heq] at h
  rw [read, heq] at hread
  obtain ⟨value, others, rfl, hne⟩ := exists_first_of_takesJson hquote (hblank c (by simp [heq]))
    h hread
  simp [sameItems, same_string_of_ne hne]

/-- Whether a value is written as JSON: it is no string that is bare. -/
def NotBare (value : Json) : Prop := ∀ word, value = .string word → ¬IsBare word

/-- **How an argument is written: as JSON, unless it is a string that is bare.** -/
theorem write_cases {value : Json} {text : Text} (h : write value = .ok text) :
    (∃ word, value = .string word ∧ IsBare word ∧ text = word) ∨
      text = .ofChars (Json.write .compact value) ∧ NotBare value := by
  unfold write at h
  split at h
  · next word =>
    split at h
    · next hlooks =>
      cases htakes : takesJson word with
      | false =>
        have hbare := write_of_isBare ⟨hlooks, htakes⟩
        rw [write, if_pos hlooks, h] at hbare
        exact .inl ⟨word, rfl, ⟨hlooks, htakes⟩, Except.ok.inj hbare⟩
      | true =>
        split at h
        · cases h
        · next values hread =>
          -- a word that JSON takes is not read back, so it is written in quotes
          rw [if_neg (by simp [sameItems_of_takesJson hlooks htakes hread])] at h
          refine .inr ⟨(Except.ok.inj h).symm, fun w hw hbare => ?_⟩
          cases hw
          rw [hbare.2] at htakes
          cases htakes
    · next hlooks =>
      cases h
      exact .inr ⟨rfl, fun w hw hbare => hlooks (by cases hw; exact hbare.1)⟩
  · next hne =>
    cases h
    exact .inr ⟨rfl, fun w hw => absurd hw (hne w)⟩

end FlatCode.Arguments
