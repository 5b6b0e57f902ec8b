import FlatCode.Proofs.Json.Spelling

/-!
# Every spelling is read

The reader takes exactly what the grammar spells: from a text that starts with a spelling of a value
it reads that value and leaves what stands behind it. A number has to be over there; for all other
values the text behind does not matter.

The parts come first, in the order of the grammar. For the values the induction is on the
derivation; the steps that the reader counts down are two for each character that a spelling takes.

* `readString_of_spells` — strings
* `readNumber_of_spells` — numbers
* `readValue_of_spells` — values
-/

namespace FlatCode.Json

/-! ## Blanks -/

theorem skipSpaces_of_blanks {text rest : Text} (h : Blanks text rest) :
    skipSpaces text = skipSpaces rest := by
  induction h with
  | none => rfl
  | cons hc _ ih =>
    rw [← ih]
    exact List.dropWhile_cons_of_pos hc

theorem skipSpaces_cons {c : CodePoint} (h : isSpace c = false) (rest : Text) :
    skipSpaces (c :: rest) = c :: rest :=
  List.dropWhile_cons_of_neg (by simp [h])

theorem length_of_blanks {text rest : Text} (h : Blanks text rest) :
    rest.length ≤ text.length := by
  induction h with
  | none => exact Nat.le_refl _
  | cons _ _ ih =>
    rw [List.length_cons]
    omega

/-- Behind blanks a number is over if it is over behind what follows them. -/
theorem endsNumber_of_blanks {text rest : Text} (h : Blanks text rest)
    (hrest : endsNumber rest = true) : endsNumber text = true := by
  cases h with
  | none => exact hrest
  | @cons c _ _ hc _ =>
    unfold isSpace at hc
    simp only [Bool.or_eq_true, beq_iff_eq] at hc
    rcases hc with ((rfl | rfl) | rfl) | rfl <;> rfl

/-! ## Strings -/

theorem length_of_spellsUnit {unit : Nat} {text rest : Text}
    (h : SpellsUnit unit text rest) : rest.length + 4 = text.length := by
  cases h
  rfl

/-- The text has to go on behind the digits. -/
theorem codeUnit?_of_spells {unit : Nat} {text rest : Text}
    (h : SpellsUnit unit text rest) (hrest : rest ≠ []) : codeUnit? text = some (unit, rest) := by
  cases h with
  | digits ha hb hc hd =>
    cases rest with
    | nil => exact absurd rfl hrest
    | cons next behind => simp [codeUnit?, ha, hb, hc, hd]

/-- A code unit is read by itself where no other escape of a code unit follows. -/
theorem readUnicodeEscape_unit {unit : Nat} {text rest : Text} (h : SpellsUnit unit text rest)
    (hrest : rest ≠ []) (hnext : ∀ more, rest ≠ .char '\\' :: .char 'u' :: more) :
    readUnicodeEscape text = .ok (codePointOfUnit unit, rest) := by
  unfold readUnicodeEscape
  rw [codeUnit?_of_spells h hrest]
  dsimp only
  split
  · next more _ => exact absurd rfl (hnext _)
  · rfl

/-- Two code units in a row are read as a pair if they are one, else the first by itself. -/
theorem readUnicodeEscape_units {high low : Nat} {text middle rest : Text}
    (h1 : SpellsUnit high text (.char '\\' :: .char 'u' :: middle))
    (h2 : SpellsUnit low middle rest) (hrest : rest ≠ []) :
    readUnicodeEscape text =
      if isHighSurrogate high && isLowSurrogate low then .ok (joinSurrogates high low, rest)
      else .ok (codePointOfUnit high, .char '\\' :: .char 'u' :: middle) := by
  have hlength := length_of_spellsUnit h2
  have hpos := List.length_pos_iff.mpr hrest
  unfold readUnicodeEscape
  rw [codeUnit?_of_spells h1 (List.cons_ne_nil _ _)]
  dsimp only
  cases isHighSurrogate high with
  | false => rfl
  | true =>
    simp only [Bool.true_and, if_neg (show ¬middle.length < 5 by omega),
      codeUnit?_of_spells h2 hrest]

/-- No letter of an escape starts the escape of a code unit. -/
theorem ne_u_of_escaped? {letter c : CodePoint} (h : escaped? letter = some c) :
    letter ≠ .char 'u' := by
  rintro rfl
  simp [escaped?] at h

theorem length_of_spellsElement {element : StringElement} {text rest : Text}
    (h : SpellsElement element text rest) : rest.length < text.length := by
  cases h with
  | raw => simp
  | letter =>
    simp only [List.length_cons]
    omega
  | unit hdigits =>
    have := length_of_spellsUnit hdigits
    simp only [List.length_cons]
    omega

theorem length_of_spellsElements {elements : List StringElement} {text rest : Text}
    (h : SpellsElements elements text rest) : rest.length < text.length := by
  induction h with
  | close => simp
  | cons helement _ ih =>
    have := length_of_spellsElement helement
    omega

theorem length_of_spellsString {cs text rest : Text} (h : SpellsString cs text rest) :
    rest.length < text.length := by
  obtain ⟨helements⟩ := h
  exact length_of_spellsElements helements

/-- The closing quote at least stands behind an element. -/
theorem ne_nil_of_spellsElements {elements : List StringElement} {text rest : Text}
    (h : SpellsElements elements text rest) : text ≠ [] := by
  have := length_of_spellsElements h
  exact List.ne_nil_of_length_pos (by omega)

/-- A code point that is no code unit is read as it stands. -/
theorem readElement_point {c : CodePoint} {text rest : Text}
    (h : SpellsElement (.point c) text rest) (opening : Nat) :
    readElement opening text = .ok (some c, rest) := by
  cases h with
  | raw hquote hslash hcontrol =>
    rw [readElement]
    · rw [if_neg (by omega)]
    · exact hquote
    · exact fun h _ => hslash h
    · exact fun _ h _ => hslash h
    · exact fun _ _ h _ => hslash h
  | letter hletter =>
    rw [readElement]
    · rw [hletter]
    · exact ne_u_of_escaped? hletter

/-- Behind an element that is no code unit, or at the closing quote, there is no escape of one. -/
theorem no_escape_of_spellsElements {elements : List StringElement} {text rest : Text}
    (h : SpellsElements elements text rest)
    (hunit : ∀ unit behind, elements ≠ .unit unit :: behind) (more : Text) :
    text ≠ .char '\\' :: .char 'u' :: more := by
  rintro rfl
  cases h with
  | cons helement _ =>
    cases helement with
    | raw _ hslash _ => exact hslash rfl
    | letter hletter => exact ne_u_of_escaped? hletter rfl
    | unit => exact hunit _ _ rfl

/-- A code unit in front of the elements of a string is an escape. -/
theorem exists_escape_of_spellsElements {unit : Nat} {elements : List StringElement}
    {text rest : Text} (h : SpellsElements (.unit unit :: elements) text rest) :
    ∃ digits behind, text = .char '\\' :: .char 'u' :: digits ∧ SpellsUnit unit digits behind ∧
      SpellsElements elements behind rest := by
  cases h with
  | cons helement hbehind =>
    cases helement with
    | unit hdigits => exact ⟨_, _, rfl, hdigits, hbehind⟩

theorem readElement_escape {opening : Nat} {text rest : Text} {c : CodePoint}
    (h : readUnicodeEscape text = .ok (c, rest)) :
    readElement opening (.char '\\' :: .char 'u' :: text) = .ok (some c, rest) := by
  rw [readElement, h]
  rfl

/-- One more code point of a string. -/
theorem stringWithin_cons {opening steps : Nat} {c : CodePoint} {cs text middle rest : Text}
    (hread : readElement opening text = .ok (some c, middle))
    (hshorter : middle.length < text.length) (hsteps : text.length ≤ steps)
    (hbehind : ∀ {n}, middle.length ≤ n → stringWithin opening n middle = .ok (cs, rest)) :
    stringWithin opening steps text = .ok (c :: cs, rest) := by
  obtain ⟨n, rfl⟩ := Nat.exists_eq_add_one_of_ne_zero (show steps ≠ 0 by omega)
  rw [stringWithin, hread]
  simp only [hbehind (show middle.length ≤ n by omega)]

/-- The code points of the elements are read, one code point in each step. -/
theorem stringWithin_of_spells {elements : List StringElement} {text rest : Text}
    (h : SpellsElements elements text rest) (opening : Nat) {steps : Nat}
    (hsteps : text.length ≤ steps) :
    stringWithin opening steps text = .ok (joinElements elements, rest) := by
  induction elements using joinElements.induct generalizing text steps with
  | case1 =>
    cases h
    obtain ⟨n, rfl⟩ := Nat.exists_eq_add_one_of_ne_zero (Nat.ne_zero_of_lt hsteps)
    rw [stringWithin, readElement, joinElements]
  | case2 c elements ih =>
    obtain - | ⟨hc, hbehind⟩ := h
    exact stringWithin_cons (readElement_point hc opening) (length_of_spellsElement hc) hsteps
      (ih hbehind)
  | case3 high low elements hpair ih =>
    obtain ⟨digits, _, rfl, hhigh, hmiddle⟩ := exists_escape_of_spellsElements h
    obtain ⟨digits', behind, rfl, hlow, hbehind⟩ := exists_escape_of_spellsElements hmiddle
    have hread := readUnicodeEscape_units hhigh hlow (ne_nil_of_spellsElements hbehind)
    rw [if_pos hpair] at hread
    rw [joinElements, if_pos hpair]
    have hshorter := length_of_spellsUnit hhigh
    have hshorter' := length_of_spellsUnit hlow
    simp only [List.length_cons] at hshorter
    exact stringWithin_cons (readElement_escape hread) (by simp; omega) hsteps (ih hbehind)
  | case4 high low elements hpair ih =>
    obtain ⟨digits, _, rfl, hhigh, hmiddle⟩ := exists_escape_of_spellsElements h
    obtain ⟨digits', behind, rfl, hlow, hbehind⟩ := exists_escape_of_spellsElements hmiddle
    have hread := readUnicodeEscape_units hhigh hlow (ne_nil_of_spellsElements hbehind)
    rw [if_neg hpair] at hread
    rw [joinElements, if_neg hpair]
    have hshorter := length_of_spellsUnit hhigh
    exact stringWithin_cons (readElement_escape hread) (by simp at *; omega) hsteps (ih hmiddle)
  | case5 unit elements hnext ih =>
    obtain ⟨digits, behind, rfl, hdigits, hbehind⟩ := exists_escape_of_spellsElements h
    have hread := readUnicodeEscape_unit hdigits (ne_nil_of_spellsElements hbehind)
      (no_escape_of_spellsElements hbehind hnext)
    have hshorter := length_of_spellsUnit hdigits
    rw [joinElements]
    · exact stringWithin_cons (readElement_escape hread) (by simp; omega) hsteps (ih hbehind)
    · exact hnext

/-- **A string is read from each of its spellings.** -/
theorem readString_of_spells {cs text rest : Text} (h : SpellsString cs text rest) :
    readString text = .ok (cs, rest) := by
  obtain ⟨helements⟩ := h
  exact stringWithin_of_spells helements _ (Nat.le_succ _)

/-! ## Numbers -/

/-- Whether a text starts with no digit. -/
def NoDigit (text : Text) : Prop := ∀ c, text.head? = some (.char c) → isDigit c = false

theorem takeDigits_of_noDigit {rest : Text} (h : NoDigit rest) : takeDigits rest = ([], rest) := by
  unfold takeDigits
  split
  · next c rest => rw [if_neg (by simp [h c rfl])]
  · rfl

theorem takeDigits_append {digits : List Char} {rest : Text} (h : ∀ c ∈ digits, isDigit c = true)
    (hrest : NoDigit rest) : takeDigits (.ofChars digits ++ rest) = (digits, rest) := by
  induction digits with
  | nil => exact takeDigits_of_noDigit hrest
  | cons c digits ih =>
    obtain ⟨hc, hdigits⟩ := List.forall_mem_cons.mp h
    rw [Text.ofChars_cons, List.cons_append, takeDigits, if_pos hc, ih hdigits]

theorem wholeDigits_append {whole : List Char} {rest : Text} (h : IsWhole whole)
    (hrest : NoDigit rest) : wholeDigits (.ofChars whole ++ rest) = (whole, rest) := by
  obtain ⟨hne, hdigits, hzero⟩ := h
  cases whole with
  | nil => exact absurd rfl hne
  | cons c whole =>
    by_cases hc : c = '0'
    · subst hc
      rw [hzero rfl]
      rfl
    · rw [Text.ofChars_cons, List.cons_append, wholeDigits]
      · exact takeDigits_append hdigits hrest
      · exact fun _ h => hc (CodePoint.char.inj (List.cons.inj h).1)

theorem fractionDigits_pointed {fraction : List Char} {rest : Text}
    (h : ∀ c ∈ fraction, isDigit c = true) (hrest : NoDigit rest)
    (hpoint : rest.head? ≠ some (.char '.')) :
    fractionDigits (.ofChars (pointed fraction) ++ rest) = (fraction, rest) := by
  cases fraction with
  | nil =>
    rw [pointed, Text.ofChars_nil, List.nil_append, fractionDigits]
    rintro behind rfl
    exact hpoint rfl
  | cons c fraction =>
    rw [pointed, Text.ofChars_cons, List.cons_append, fractionDigits, takeDigits_append h hrest]
    intro hnil
    cases hnil

theorem noDigit_of_endsNumber {rest : Text} (h : endsNumber rest = true) : NoDigit rest := by
  intro c hc
  obtain ⟨behind, rfl⟩ := List.head?_eq_some_iff.mp hc
  simp only [endsNumber, Bool.not_eq_true', Bool.or_eq_false_iff] at h
  exact h.1.1.1

/-- The text of an exponent, or what stands behind a number without one, goes on with no digit and
no point. -/
theorem exponent_head {exponent : Option Int} {text : List Char} {rest : Text}
    (h : SpellsExponent exponent text) (hrest : endsNumber rest = true) :
    NoDigit (.ofChars text ++ rest) ∧ (Text.ofChars text ++ rest).head? ≠ some (.char '.') := by
  have hmark : ∀ {mark : Char} {behind : Text}, mark = 'e' ∨ mark = 'E' →
      NoDigit (.char mark :: behind) ∧
        (CodePoint.char mark :: behind).head? ≠ some (.char '.') := by
    intro mark behind hmark
    rcases hmark with rfl | rfl
    · exact ⟨fun c hc => by cases hc; decide, by simp⟩
    · exact ⟨fun c hc => by cases hc; decide, by simp⟩
  cases h with
  | none =>
    refine ⟨noDigit_of_endsNumber hrest, fun hpoint => ?_⟩
    obtain ⟨behind, rfl⟩ := List.head?_eq_some_iff.mp hpoint
    simp [endsNumber] at hrest
  | plain h _ _ => exact hmark h
  | plus h _ _ => exact hmark h
  | minus h _ _ => exact hmark h

/-- Digits behind the mark of an exponent, whose sign has been read. -/
theorem exponentPart_digits {mark : Char} {digits : List Char} {signed rest : Text}
    {negative : Bool} (hmark : mark = 'e' ∨ mark = 'E')
    (hsign : exponentSign signed = (negative, .ofChars digits ++ rest)) (hne : digits ≠ [])
    (h : ∀ c ∈ digits, isDigit c = true) (hrest : NoDigit rest) :
    exponentPart (.char mark :: signed)
      = (some (if negative then -(Nat.ofDigitChars 10 digits 0 : Int)
        else Nat.ofDigitChars 10 digits 0), rest) := by
  have htrue : (decide (CodePoint.char mark = .char 'e')
      || decide (CodePoint.char mark = .char 'E')) = true := by simpa using hmark
  rw [exponentPart, if_pos htrue]
  simp only [hsign, takeDigits_append h hrest]

theorem exponentPart_of_spells {exponent : Option Int} {text : List Char} {rest : Text}
    (h : SpellsExponent exponent text) (hrest : endsNumber rest = true) :
    exponentPart (.ofChars text ++ rest) = (exponent, rest) := by
  have hdigit := noDigit_of_endsNumber hrest
  cases h with
  | none =>
    cases rest with
    | nil => rfl
    | cons c rest =>
      have hmark : ¬(c = .char 'e' ∨ c = .char 'E') := by
        rintro (rfl | rfl) <;> simp [endsNumber] at hrest
      rw [Text.ofChars_nil, List.nil_append, exponentPart, if_neg (by simpa using hmark)]
  | @plain mark digits hmark hne hd =>
    have hsign : exponentSign (.ofChars digits ++ rest) = (false, .ofChars digits ++ rest) := by
      cases digits with
      | nil => exact absurd rfl hne
      | cons d digits =>
        have hfirst := hd d List.mem_cons_self
        rw [Text.ofChars_cons, List.cons_append, exponentSign]
        · rintro _ h
          obtain rfl := CodePoint.char.inj (List.cons.inj h).1
          exact absurd hfirst (by decide)
        · rintro _ h
          obtain rfl := CodePoint.char.inj (List.cons.inj h).1
          exact absurd hfirst (by decide)
    exact exponentPart_digits hmark hsign hne hd hdigit
  | @plus mark digits hmark hne hd =>
    have hsign : exponentSign (.char '+' :: (Text.ofChars digits ++ rest))
        = (false, Text.ofChars digits ++ rest) := rfl
    exact exponentPart_digits hmark hsign hne hd hdigit
  | @minus mark digits hmark hne hd =>
    have hsign : exponentSign (.char '-' :: (Text.ofChars digits ++ rest))
        = (true, Text.ofChars digits ++ rest) := rfl
    exact exponentPart_digits hmark hsign hne hd hdigit

/-- The parts of a number that is spelled by its parts. -/
theorem parts_of_spells {negative : Bool} {value : Json} {text : List Char} {rest : Text}
    (h : SpellsNumber negative value text) (hrest : endsNumber rest = true) :
    ∃ c whole behind fraction behind' exponent,
      wholeDigits (.ofChars text ++ rest) = (c :: whole, behind) ∧
      fractionDigits behind = (fraction, behind') ∧ exponentPart behind' = (exponent, rest) ∧
      numberOf negative (c :: whole) fraction exponent = .ok value := by
  obtain ⟨hwhole, hfraction, hexponent, hvalue⟩ := h
  next whole fraction exponentText exponent =>
  obtain ⟨hdigit, hpoint⟩ := exponent_head hexponent hrest
  have hbehind : NoDigit (.ofChars (pointed fraction) ++ (.ofChars exponentText ++ rest)) := by
    cases fraction with
    | nil => exact hdigit
    | cons d fraction => intro c hc; cases hc; rfl
  have hread := wholeDigits_append hwhole hbehind
  cases whole with
  | nil => exact absurd rfl hwhole.1
  | cons c whole =>
    refine ⟨c, whole, _, fraction, _, exponent, ?_, fractionDigits_pointed hfraction hdigit hpoint,
      exponentPart_of_spells hexponent hrest, hvalue⟩
    rw [← hread]
    simp only [Text.ofChars_append, List.append_assoc]

/-- The text of a number without its sign starts with a digit. -/
theorem exists_digit_of_spellsNumber {negative : Bool} {value : Json} {text : List Char}
    (h : SpellsNumber negative value text) : ∃ c behind, text = c :: behind ∧ isDigit c = true := by
  obtain ⟨hwhole, -, -, -⟩ := h
  next whole fraction exponentText exponent =>
  cases whole with
  | nil => exact absurd rfl hwhole.1
  | cons c whole => exact ⟨c, _, rfl, hwhole.2.1 c List.mem_cons_self⟩

/-- **A number is read from each of its spellings.** -/
theorem readNumber_of_spells {value : Json} {text : List Char} {rest : Text}
    (h : SpellsNumber false value text) (hrest : endsNumber rest = true) :
    readNumber (.ofChars text ++ rest) = .ok (value, rest) := by
  obtain ⟨c, whole, behind, fraction, behind', exponent, h1, h2, h3, h4⟩ := parts_of_spells h hrest
  -- there is a digit in front, so no sign is taken off
  obtain ⟨d, tail, rfl, hd⟩ := exists_digit_of_spellsNumber h
  have hsign : d ≠ '-' := by rintro rfl; exact absurd hd (by decide)
  unfold readNumber
  rw [Text.ofChars_cons, List.cons_append] at h1 ⊢
  split
  next negative unsigned heq =>
  split at heq
  · next hminus => exact absurd (CodePoint.char.inj (List.cons.inj hminus).1) hsign
  · cases heq
    simp only [h1, h2, h3, h4]
    rfl

/-- A negative number is read from each of its spellings. -/
theorem readNumber_of_negative {value : Json} {text : List Char} {rest : Text}
    (h : SpellsNumber true value text) (hrest : endsNumber rest = true) :
    readNumber (.char '-' :: (Text.ofChars text ++ rest)) = .ok (value, rest) := by
  obtain ⟨c, whole, behind, fraction, behind', exponent, h1, h2, h3, h4⟩ := parts_of_spells h hrest
  simp only [readNumber, h1, h2, h3, h4]
  rfl

/-! ## Words -/

/-- No word is the start of another, so a word is read as what it stands for. -/
theorem readWord?_of_mem {word : List Char} {value : Json} (h : (word, value) ∈ wordValues)
    (rest : Text) : readWord? (.ofChars word ++ rest) = some (value, rest) := by
  simp only [wordValues, List.mem_cons, Prod.mk.injEq, List.not_mem_nil, or_false] at h
  rcases h with ⟨rfl, rfl⟩ | ⟨rfl, rfl⟩ | ⟨rfl, rfl⟩ | ⟨rfl, rfl⟩ | ⟨rfl, rfl⟩ | ⟨rfl, rfl⟩ <;>
    simp [readWord?, wordValues, behindWord?]

/-- A digit is none of the other characters. -/
theorem ne_of_isDigit {c d : Char} (hc : isDigit c = true) (hd : isDigit d = false) :
    CodePoint.char c ≠ .char d := by
  intro heq
  rw [CodePoint.char.inj heq, hd] at hc
  cases hc

/-- No word starts with a digit. -/
theorem readWord?_digit {c : Char} (h : isDigit c = true) (rest : Text) :
    readWord? (.char c :: rest) = none := by
  have hne {d : Char} (hd : isDigit d = false) : c ≠ d := fun heq =>
    ne_of_isDigit h hd (congrArg _ heq)
  simp [readWord?, wordValues, behindWord?, hne (show isDigit 'n' = false from rfl),
    hne (show isDigit 't' = false from rfl), hne (show isDigit 'f' = false from rfl),
    hne (show isDigit 'N' = false from rfl), hne (show isDigit 'I' = false from rfl),
    hne (show isDigit '-' = false from rfl)]

/-- No word has a digit behind a minus sign. -/
theorem readWord?_negative {c : Char} (h : isDigit c = true) (rest : Text) :
    readWord? (.char '-' :: .char c :: rest) = none := by
  have hne : c ≠ 'I' := by
    rintro rfl
    exact absurd h (by decide)
  simp [readWord?, wordValues, behindWord?, hne]

/-! ## Values -/

/-- Whether a value may start with a character. -/
def startsValue (c : Char) : Bool :=
  isDigit c || ['"', '[', '{', '-', 'n', 't', 'f', 'N', 'I'].contains c

/-- A word may start a value, and starts with no quote and no bracket. -/
theorem exists_letter_of_mem {word : List Char} {value : Json} (h : (word, value) ∈ wordValues) :
    ∃ c behind, word = c :: behind ∧ startsValue c = true ∧ CodePoint.char c ≠ .char '"' ∧
      CodePoint.char c ≠ .char '[' ∧ CodePoint.char c ≠ .char '{' := by
  simp only [wordValues, List.mem_cons, Prod.mk.injEq, List.not_mem_nil, or_false] at h
  rcases h with ⟨rfl, _⟩ | ⟨rfl, _⟩ | ⟨rfl, _⟩ | ⟨rfl, _⟩ | ⟨rfl, _⟩ | ⟨rfl, _⟩ <;>
    exact ⟨_, _, rfl, rfl, by decide, by decide, by decide⟩

theorem exists_start_of_spells {value : Json} {text rest : Text}
    (h : Spells value text rest) :
    ∃ c behind, text = .char c :: behind ∧ startsValue c = true := by
  cases h with
  | word h =>
    obtain ⟨c, behind, rfl, hc, -⟩ := exists_letter_of_mem h
    exact ⟨c, _, rfl, hc⟩
  | number h =>
    obtain ⟨c, behind, rfl, hc⟩ := exists_digit_of_spellsNumber h
    exact ⟨c, _, rfl, by simp [startsValue, hc]⟩
  | negative => exact ⟨_, _, rfl, rfl⟩
  | string => exact ⟨_, _, rfl, rfl⟩
  | emptyArray => exact ⟨_, _, rfl, rfl⟩
  | array => exact ⟨_, _, rfl, rfl⟩
  | emptyObject => exact ⟨_, _, rfl, rfl⟩
  | object => exact ⟨_, _, rfl, rfl⟩

theorem exists_start_of_spellsItems {items : List Json} {text rest : Text}
    (h : SpellsItems items text rest) :
    ∃ c behind, text = .char c :: behind ∧ startsValue c = true := by
  cases h with
  | last h _ => exact exists_start_of_spells h
  | cons h _ _ _ => exact exists_start_of_spells h

theorem exists_quote_of_spellsFields {fields : List (Text × Json)} {text rest : Text}
    (h : SpellsFields fields text rest) : ∃ behind, text = .char '"' :: behind := by
  cases h with
  | last h _ => cases h; exact ⟨_, rfl⟩
  | cons h _ _ _ => cases h; exact ⟨_, rfl⟩

theorem isSpace_of_startsValue {c : Char} (h : startsValue c = true) :
    isSpace (.char c) = false := by
  rw [← Bool.not_eq_true]
  intro hspace
  simp only [isSpace, Bool.or_eq_true, beq_iff_eq, CodePoint.char.injEq] at hspace
  rcases hspace with ((rfl | rfl) | rfl) | rfl <;> exact absurd h (by decide)

/-- A text without a quote or a bracket in front holds a word or a number. -/
theorem valueWithin_default {c : CodePoint} (h1 : c ≠ .char '"') (h2 : c ≠ .char '[')
    (h3 : c ≠ .char '{') (steps : Nat) (behind : Text) :
    valueWithin (steps + 1) (c :: behind) =
      match readWord? (c :: behind) with
      | some reading => .ok reading
      | none => readNumber (c :: behind) := by
  rw [valueWithin.eq_def]
  dsimp only
  split
  · next heq => exact absurd (List.cons.inj heq).1 h1
  · next heq => exact absurd (List.cons.inj heq).1 h2
  · next heq => exact absurd (List.cons.inj heq).1 h3
  · rfl

/-- A digit starts a number. -/
theorem valueWithin_digit {c : Char} (hc : isDigit c = true) (steps : Nat) (behind : Text) :
    valueWithin (steps + 1) (.char c :: behind) = readNumber (.char c :: behind) := by
  rw [valueWithin_default (ne_of_isDigit hc rfl) (ne_of_isDigit hc rfl) (ne_of_isDigit hc rfl),
    readWord?_digit hc]

/-- So does a minus sign in front of a digit. -/
theorem valueWithin_minus {c : Char} (hc : isDigit c = true) (steps : Nat) (behind : Text) :
    valueWithin (steps + 1) (.char '-' :: .char c :: behind)
      = readNumber (.char '-' :: .char c :: behind) := by
  rw [valueWithin_default (by decide) (by decide) (by decide), readWord?_negative hc]

mutual

theorem length_of_spells {value : Json} {text rest : Text} :
    Spells value text rest → rest.length < text.length
  | .word h => by
    obtain ⟨c, behind, rfl, -⟩ := exists_letter_of_mem h
    simp only [Text.ofChars_cons, List.length_append, List.length_cons]
    omega
  | .number h => by
    obtain ⟨c, behind, rfl, -⟩ := exists_digit_of_spellsNumber h
    simp only [Text.ofChars_cons, List.length_append, List.length_cons]
    omega
  | .negative h => by
    simp only [List.length_append, List.length_cons]
    omega
  | .string h => by
    have := length_of_spellsString h
    simp only [List.length_cons]
    omega
  | .emptyArray h => by
    have := length_of_blanks h
    simp only [List.length_cons] at *
    omega
  | .array h1 h2 => by
    have := length_of_blanks h1
    have := length_of_spellsItems h2
    simp only [List.length_cons]
    omega
  | .emptyObject h => by
    have := length_of_blanks h
    simp only [List.length_cons] at *
    omega
  | .object h1 h2 => by
    have := length_of_blanks h1
    have := length_of_spellsFields h2
    simp only [List.length_cons]
    omega

theorem length_of_spellsItems {items : List Json} {text rest : Text} :
    SpellsItems items text rest → rest.length + 1 < text.length
  | .last h1 h2 => by
    have := length_of_spells h1
    have := length_of_blanks h2
    simp only [List.length_cons] at *
    omega
  | .cons h1 h2 h3 h4 => by
    have := length_of_spells h1
    have := length_of_blanks h2
    have := length_of_blanks h3
    have := length_of_spellsItems h4
    simp only [List.length_cons] at *
    omega

theorem length_of_spellsFields {fields : List (Text × Json)} {text rest : Text} :
    SpellsFields fields text rest → rest.length + 1 < text.length
  | .last h1 h2 => by
    have := length_of_spellsField h1
    have := length_of_blanks h2
    simp only [List.length_cons] at *
    omega
  | .cons h1 h2 h3 h4 => by
    have := length_of_spellsField h1
    have := length_of_blanks h2
    have := length_of_blanks h3
    have := length_of_spellsFields h4
    simp only [List.length_cons] at *
    omega

theorem length_of_spellsField {field : Text × Json} {text rest : Text} :
    SpellsField field text rest → rest.length + 2 < text.length
  | .named h1 h2 h3 h4 => by
    have := length_of_spellsString h1
    have := length_of_blanks h2
    have := length_of_blanks h3
    have := length_of_spells h4
    simp only [List.length_cons] at *
    omega

end

mutual

/-- A value is read from each of its spellings in two steps for each of its characters. -/
theorem valueWithin_of_spells {value : Json} {text rest : Text} {steps : Nat} :
    Spells value text rest → endsNumber rest = true → 2 * text.length ≤ steps + 2 * rest.length →
      valueWithin steps text = .ok (value, rest)
  | .word h, _, hsteps => by
    have hlength := length_of_spells (.word h : Spells _ _ rest)
    obtain ⟨n, rfl⟩ := Nat.exists_eq_add_one_of_ne_zero (show steps ≠ 0 by omega)
    have hread := readWord?_of_mem h rest
    obtain ⟨c, behind, rfl, -, h1, h2, h3⟩ := exists_letter_of_mem h
    rw [Text.ofChars_cons, List.cons_append] at hread ⊢
    rw [valueWithin_default h1 h2 h3, hread]
  | .number h, hrest, hsteps => by
    have hlength := length_of_spells (.number h : Spells _ _ rest)
    obtain ⟨n, rfl⟩ := Nat.exists_eq_add_one_of_ne_zero (show steps ≠ 0 by omega)
    have hread := readNumber_of_spells h hrest
    obtain ⟨c, behind, rfl, hc⟩ := exists_digit_of_spellsNumber h
    rw [Text.ofChars_cons, List.cons_append] at hread ⊢
    rw [valueWithin_digit hc, hread]
  | .negative h, hrest, hsteps => by
    have hlength := length_of_spells (.negative h : Spells _ _ rest)
    obtain ⟨n, rfl⟩ := Nat.exists_eq_add_one_of_ne_zero (show steps ≠ 0 by omega)
    have hread := readNumber_of_negative h hrest
    obtain ⟨c, behind, rfl, hc⟩ := exists_digit_of_spellsNumber h
    rw [Text.ofChars_cons, List.cons_append] at hread ⊢
    rw [valueWithin_minus hc, hread]
  | .string h, _, hsteps => by
    have hlength := length_of_spells (.string h)
    obtain ⟨n, rfl⟩ := Nat.exists_eq_add_one_of_ne_zero (show steps ≠ 0 by omega)
    rw [valueWithin, readString_of_spells h]
  | .emptyArray h, _, hsteps => by
    have hlength := length_of_spells (.emptyArray h)
    obtain ⟨n, rfl⟩ := Nat.exists_eq_add_one_of_ne_zero (show steps ≠ 0 by omega)
    rw [valueWithin, skipSpaces_of_blanks h, skipSpaces_cons (by decide)]
    rfl
  | @Spells.array items _ middle _ h1 h2, _, hsteps => by
    have hblanks := length_of_blanks h1
    have hlength := length_of_spellsItems h2
    simp only [List.length_cons] at hsteps
    obtain ⟨n, rfl⟩ := Nat.exists_eq_add_one_of_ne_zero (show steps ≠ 0 by omega)
    have hitems : itemsWithin n middle = .ok (items, _) := itemsWithin_of_spells h2 (by omega)
    -- items start with no bracket, so the array is not taken for the empty one
    obtain ⟨c, behind, rfl, hc⟩ := exists_start_of_spellsItems h2
    rw [valueWithin, skipSpaces_of_blanks h1, skipSpaces_cons (isSpace_of_startsValue hc)]
    split
    · next heq =>
      obtain rfl := CodePoint.char.inj (List.cons.inj heq).1
      exact absurd hc (by decide)
    · rw [hitems]
  | .emptyObject h, _, hsteps => by
    have hlength := length_of_spells (.emptyObject h)
    obtain ⟨n, rfl⟩ := Nat.exists_eq_add_one_of_ne_zero (show steps ≠ 0 by omega)
    rw [valueWithin, skipSpaces_of_blanks h, skipSpaces_cons (by decide)]
    rfl
  | @Spells.object fields _ middle _ h1 h2, _, hsteps => by
    have hblanks := length_of_blanks h1
    have hlength := length_of_spellsFields h2
    simp only [List.length_cons] at hsteps
    obtain ⟨n, rfl⟩ := Nat.exists_eq_add_one_of_ne_zero (show steps ≠ 0 by omega)
    have hfields : fieldsWithin n middle = .ok (fields, _) := fieldsWithin_of_spells h2 (by omega)
    obtain ⟨behind, rfl⟩ := exists_quote_of_spellsFields h2
    rw [valueWithin, skipSpaces_of_blanks h1, skipSpaces_cons (by decide)]
    split
    · next heq => exact absurd (List.cons.inj heq).1 (by decide)
    · rw [hfields]

theorem itemsWithin_of_spells {items : List Json} {text rest : Text} {steps : Nat} :
    SpellsItems items text rest → 2 * text.length ≤ steps + 2 * rest.length →
      itemsWithin steps text = .ok (items, rest)
  | @SpellsItems.last _ _ middle _ h1 h2, hsteps => by
    have hlength := length_of_spells h1
    have hblanks := length_of_blanks h2
    rw [List.length_cons] at hblanks
    obtain ⟨n, rfl⟩ := Nat.exists_eq_add_one_of_ne_zero (show steps ≠ 0 by omega)
    rw [itemsWithin, valueWithin_of_spells h1 (endsNumber_of_blanks h2 rfl) (by omega)]
    simp only [skipSpaces_of_blanks h2, skipSpaces_cons (show isSpace (.char ']') = false from rfl)]
  | @SpellsItems.cons _ items _ behind separated next _ h1 h2 h3 h4, hsteps => by
    have hlength := length_of_spells h1
    have hblanks := length_of_blanks h2
    have hblanks' := length_of_blanks h3
    have hitems := length_of_spellsItems h4
    rw [List.length_cons] at hblanks
    obtain ⟨n, rfl⟩ := Nat.exists_eq_add_one_of_ne_zero (show steps ≠ 0 by omega)
    have hrec : itemsWithin n next = .ok (items, _) := itemsWithin_of_spells h4 (by omega)
    obtain ⟨c, tail, rfl, hc⟩ := exists_start_of_spellsItems h4
    rw [itemsWithin, valueWithin_of_spells h1 (endsNumber_of_blanks h2 rfl) (by omega)]
    simp only [skipSpaces_of_blanks h2, skipSpaces_cons (show isSpace (.char ',') = false from rfl),
      skipSpaces_of_blanks h3, skipSpaces_cons (isSpace_of_startsValue hc), hrec]

theorem fieldsWithin_of_spells {fields : List (Text × Json)} {text rest : Text}
    {steps : Nat} :
    SpellsFields fields text rest → 2 * text.length ≤ steps + 2 * rest.length →
      fieldsWithin steps text = .ok (fields, rest)
  | @SpellsFields.last _ _ middle _ h1 h2, hsteps => by
    have hlength := length_of_spellsField h1
    have hblanks := length_of_blanks h2
    rw [List.length_cons] at hblanks
    obtain ⟨n, rfl⟩ := Nat.exists_eq_add_one_of_ne_zero (show steps ≠ 0 by omega)
    rw [fieldsWithin, readField_of_spells h1 (endsNumber_of_blanks h2 rfl) (by omega)]
    simp only [skipSpaces_of_blanks h2, skipSpaces_cons (show isSpace (.char '}') = false from rfl)]
  | @SpellsFields.cons _ fields _ behind separated next _ h1 h2 h3 h4, hsteps => by
    have hlength := length_of_spellsField h1
    have hblanks := length_of_blanks h2
    have hblanks' := length_of_blanks h3
    have hfields := length_of_spellsFields h4
    rw [List.length_cons] at hblanks
    obtain ⟨n, rfl⟩ := Nat.exists_eq_add_one_of_ne_zero (show steps ≠ 0 by omega)
    have hrec : fieldsWithin n next = .ok (fields, _) := fieldsWithin_of_spells h4 (by omega)
    obtain ⟨tail, rfl⟩ := exists_quote_of_spellsFields h4
    rw [fieldsWithin, readField_of_spells h1 (endsNumber_of_blanks h2 rfl) (by omega)]
    simp only [skipSpaces_of_blanks h2, skipSpaces_cons (show isSpace (.char ',') = false from rfl),
      skipSpaces_of_blanks h3, skipSpaces_cons (show isSpace (.char '"') = false from rfl), hrec]

theorem readField_of_spells {field : Text × Json} {text rest : Text} {steps : Nat} :
    SpellsField field text rest → endsNumber rest = true →
      2 * text.length ≤ steps + 2 * rest.length → readField steps text = .ok (field, rest)
  | @SpellsField.named _ _ behind separated next _ value h1 h2 h3 h4, hrest, hsteps => by
    have hlength := length_of_spellsString h1
    have hblanks := length_of_blanks h2
    have hblanks' := length_of_blanks h3
    have hvalue := length_of_spells h4
    rw [List.length_cons] at hblanks hsteps
    obtain ⟨n, rfl⟩ := Nat.exists_eq_add_one_of_ne_zero (show steps ≠ 0 by omega)
    have hrec : valueWithin n next = .ok (value, _) :=
      valueWithin_of_spells h4 hrest (by omega)
    obtain ⟨c, tail, rfl, hc⟩ := exists_start_of_spells h4
    rw [readField, readString_of_spells h1]
    simp only [skipSpaces_of_blanks h2, skipSpaces_cons (show isSpace (.char ':') = false from rfl),
      skipSpaces_of_blanks h3, skipSpaces_cons (isSpace_of_startsValue hc), hrec]

end

/-- **A value is read from each of its spellings.** -/
theorem readValue_of_spells {value : Json} {text rest : Text} (h : Spells value text rest)
    (hrest : endsNumber rest = true) : readValue text = .ok (value, rest) :=
  valueWithin_of_spells h hrest (by omega)

end FlatCode.Json
