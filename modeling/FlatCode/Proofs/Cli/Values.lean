import FlatCode.Proofs.Cli.Splitting
import FlatCode.Proofs.Program.BareWords

/-!
# The splitter cuts no value

The reader of values and the splitter are written apart. The reader knows the whole grammar, the
splitter only quotes and backslashes. They agree on what is read: where the reader gets from a
text to the rest behind a value, the splitter gets there too, without a cut and with quotes closed
(`passes_readValue`). So each semicolon of a value stands in one of its strings.

The parts come first: an escape, a string, a number, a word. Arrays and objects are followed
through the four readers at once, by induction on their steps.
-/

namespace FlatCode.Cli

open Json

variable {s rest : Text}

/-! ## Strings -/

theorem hexDigit?_ne {c : CodePoint} {n : Nat} (h : hexDigit? c = some n) :
    c ≠ .char '"' ∧ c ≠ .char '\\' := by
  constructor
  · rintro rfl
    cases h
  · rintro rfl
    cases h

theorem passes_codeUnit? {unit : Nat} (h : codeUnit? s = some (unit, rest)) :
    Passes .inside s .inside rest := by
  unfold codeUnit? at h
  split at h
  · simp only [Option.bind_eq_bind, Option.bind_eq_some_iff] at h
    obtain ⟨_, h1, _, h2, _, h3, _, h4, h⟩ := h
    obtain ⟨_, rfl⟩ := Prod.mk.inj (Option.some.inj h)
    have hdigit : ∀ {c : CodePoint} {n : Nat} {t : Text}, hexDigit? c = some n →
        Passes .inside (c :: t) .inside t := fun h => .quoted (hexDigit?_ne h).1 (hexDigit?_ne h).2
    exact (hdigit h1).trans ((hdigit h2).trans ((hdigit h3).trans (hdigit h4)))
  · cases h

theorem passes_readUnicodeEscape {c : CodePoint} (h : readUnicodeEscape s = .ok (c, rest)) :
    Passes .inside s .inside rest := by
  unfold readUnicodeEscape at h
  split at h
  · cases h
  · next unit behind hunit =>
    have hfirst := passes_codeUnit? hunit
    split at h
    · next more _ _ =>
      split at h
      · cases h
        exact hfirst
      · split at h
        · cases h
        · next low tail hlow =>
          split at h
          · -- the second half of a pair is an escape of its own
            obtain ⟨_, rfl⟩ := Prod.mk.inj (Except.ok.inj h)
            exact hfirst.trans (Passes.escape.trans (passes_codeUnit? hlow))
          · cases h
            exact hfirst
    · cases h
      exact hfirst

/-- The closing quote leads outside, any other element stays inside. -/
theorem passes_readElement {opening : Nat} {element : Option CodePoint}
    (h : readElement opening s = .ok (element, rest)) :
    Passes .inside s (if element.isSome then .inside else .outside) rest := by
  unfold readElement at h
  split at h
  · cases h
  · cases h
    exact .closing
  · cases h
  · next behind =>
    cases hc : readUnicodeEscape behind with
    | error e =>
      rw [hc] at h
      cases h
    | ok reading =>
      rw [hc] at h
      cases h
      exact Passes.escape.trans (passes_readUnicodeEscape hc)
  · split at h
    · cases h
      exact .escape
    · cases h
  · next hquote hlast _ hslash =>
    split at h
    · cases h
    · cases h
      refine .quoted hquote fun hc => ?_
      cases rest with
      | nil => exact hlast hc rfl
      | cons d behind => exact hslash d behind hc rfl

theorem passes_stringWithin {opening steps : Nat} {cs : Text}
    (h : stringWithin opening steps s = .ok (cs, rest)) : Passes .inside s .outside rest := by
  induction steps generalizing s cs with
  | zero => cases h
  | succ steps ih =>
    rw [stringWithin] at h
    split at h
    · cases h
    · next hend =>
      cases h
      exact passes_readElement hend
    · next hc =>
      split at h
      · cases h
      · next hbehind =>
        cases h
        exact (passes_readElement hc).trans (ih hbehind)

/-- **A string is passed from behind its opening quote to behind its closing quote.** -/
theorem passes_readString {cs : Text} (h : readString s = .ok (cs, rest)) :
    Passes .inside s .outside rest :=
  passes_stringWithin h

/-! ## Numbers and words -/

theorem passes_skipSpaces (s : Text) : Passes .outside s .outside (skipSpaces s) :=
  .dropKind rfl rfl s

theorem passes_takeDigits (s : Text) : Passes .outside s .outside (takeDigits s).2 := by
  induction s with
  | nil => exact .stop
  | cons c s ih =>
    cases c with
    | surrogate n => exact .stop
    | char c =>
      rw [takeDigits]
      split
      · next hc =>
        exact (Passes.plain (ne_of_isDigit hc rfl) (ne_of_isDigit hc rfl)).trans ih
      · exact .stop

theorem passes_minusSign (s : Text) :
    Passes .outside s .outside (Arguments.minusSign s).2 := by
  unfold Arguments.minusSign
  split
  · exact .plain (by decide) (by decide)
  · exact .stop

theorem passes_wholeDigits (s : Text) : Passes .outside s .outside (wholeDigits s).2 := by
  unfold wholeDigits
  split
  · exact .plain (by decide) (by decide)
  · exact passes_takeDigits _

theorem passes_fractionDigits (s : Text) :
    Passes .outside s .outside (fractionDigits s).2 := by
  unfold fractionDigits
  split
  · next behind =>
    have hdigits := passes_takeDigits behind
    split
    · exact .stop
    · next heq =>
      rw [heq] at hdigits
      exact Passes.plain (by decide) (by decide) |>.trans hdigits
  · exact .stop

theorem passes_exponentSign (s : Text) : Passes .outside s .outside (exponentSign s).2 := by
  unfold exponentSign
  split
  · exact .plain (by decide) (by decide)
  · exact .plain (by decide) (by decide)
  · exact .stop

theorem passes_exponentPart (s : Text) : Passes .outside s .outside (exponentPart s).2 := by
  unfold exponentPart
  split
  · exact .stop
  · next c behind =>
    split
    · next hc =>
      have hdigits := (passes_exponentSign behind).trans (passes_takeDigits _)
      have hletter : Passes .outside (c :: behind) .outside behind := by
        simp only [Bool.or_eq_true, decide_eq_true_eq] at hc
        rcases hc with rfl | rfl
        · exact .plain (by decide) (by decide)
        · exact .plain (by decide) (by decide)
      dsimp only
      split
      · exact .stop
      · next heq =>
        rw [heq] at hdigits
        exact hletter.trans hdigits
    · exact .stop

theorem passes_readNumber {value : Json} (h : readNumber s = .ok (value, rest)) :
    Passes .outside s .outside rest := by
  rw [Arguments.readNumber_eq] at h
  have hwhole := (passes_minusSign s).trans (passes_wholeDigits _)
  split at h
  · cases h
  · next whole behind _ heq =>
    rw [heq] at hwhole
    have hparts := (passes_fractionDigits behind).trans (passes_exponentPart _)
    generalize numberOf _ _ _ _ = number at h
    cases number with
    | error e => cases h
    | ok v =>
      cases h
      exact hwhole.trans hparts

theorem passes_behindWord? {word : List Char} (hword : ∀ c ∈ word, c ≠ ';' ∧ c ≠ '"')
    (h : behindWord? word s = some rest) : Passes .outside s .outside rest := by
  induction word generalizing s with
  | nil =>
    cases h
    exact .stop
  | cons w word ih =>
    rw [List.forall_mem_cons] at hword
    cases s with
    | nil => cases h
    | cons c s =>
      rw [behindWord?] at h
      split at h
      · next hc =>
        subst hc
        have hcut : CodePoint.char w ≠ .char ';' := by simpa using hword.1.1
        have hquote : CodePoint.char w ≠ .char '"' := by simpa using hword.1.2
        exact (Passes.plain hcut hquote).trans (ih hword.2 h)
      · cases h

theorem passes_readWord? {value : Json} (h : readWord? s = some (value, rest)) :
    Passes .outside s .outside rest := by
  obtain ⟨⟨word, v⟩, hmem, h⟩ := List.exists_of_findSome?_eq_some h
  obtain ⟨behind, hbehind, h⟩ := Option.map_eq_some_iff.mp h
  cases h
  have hplain : ∀ pair ∈ wordValues, ∀ c ∈ pair.1, c ≠ ';' ∧ c ≠ '"' := by
    simp [wordValues]
  exact passes_behindWord? (hplain _ hmem) hbehind

/-! ## Arrays and objects -/

/-- What one of the four readers takes off the front of a text, the splitter passes. -/
theorem passes_within (steps : Nat) :
    (∀ s value rest, valueWithin steps s = .ok (value, rest) → Passes .outside s .outside rest) ∧
    (∀ s items rest, itemsWithin steps s = .ok (items, rest) → Passes .outside s .outside rest) ∧
    (∀ s fields rest, fieldsWithin steps s = .ok (fields, rest) →
      Passes .outside s .outside rest) ∧
    (∀ s field rest, readField steps s = .ok (field, rest) → Passes .outside s .outside rest) := by
  induction steps with
  | zero => simp [valueWithin, itemsWithin, fieldsWithin, readField, faultAt]
  | succ steps ih =>
    obtain ⟨ihValue, ihItems, ihFields, ihField⟩ := ih
    refine ⟨?_, ?_, ?_, ?_⟩
    · intro s value rest h
      rw [valueWithin.eq_def] at h
      dsimp only at h
      split at h
      · split at h
        · cases h
        · next hcs =>
          cases h
          exact Passes.opening.trans (passes_readString hcs)
      · next behind =>
        have hopen : Passes .outside (.char '[' :: behind) .outside (skipSpaces behind) :=
          (Passes.plain (by decide) (by decide)).trans (passes_skipSpaces behind)
        split at h
        · next heq =>
          cases h
          exact (heq ▸ hopen).trans (.plain (by decide) (by decide))
        · split at h
          · cases h
          · next hitems =>
            cases h
            exact hopen.trans (ihItems _ _ _ hitems)
      · next behind =>
        have hopen : Passes .outside (.char '{' :: behind) .outside (skipSpaces behind) :=
          (Passes.plain (by decide) (by decide)).trans (passes_skipSpaces behind)
        split at h
        · next heq =>
          cases h
          exact (heq ▸ hopen).trans (.plain (by decide) (by decide))
        · split at h
          · cases h
          · next hfields =>
            cases h
            exact hopen.trans (ihFields _ _ _ hfields)
      · split at h
        · next hword =>
          cases h
          exact passes_readWord? hword
        · exact passes_readNumber h
    · intro s items rest h
      rw [itemsWithin] at h
      split at h
      · cases h
      · next item behind hitem =>
        have hfirst := (ihValue _ _ _ hitem).trans (passes_skipSpaces behind)
        split at h
        · next heq =>
          cases h
          exact (heq ▸ hfirst).trans (.plain (by decide) (by decide))
        · next tail heq =>
          split at h
          · cases h
          · next hitems =>
            cases h
            have hcomma : Passes .outside s .outside tail :=
              (heq ▸ hfirst).trans (.plain (by decide) (by decide))
            exact hcomma.trans ((passes_skipSpaces tail).trans (ihItems _ _ _ hitems))
        · cases h
    · intro s fields rest h
      rw [fieldsWithin] at h
      split at h
      · cases h
      · next field behind hfield =>
        have hfirst := (ihField _ _ _ hfield).trans (passes_skipSpaces behind)
        split at h
        · next heq =>
          cases h
          exact (heq ▸ hfirst).trans (.plain (by decide) (by decide))
        · next tail heq =>
          split at h
          · cases h
          · next hfields =>
            cases h
            have hcomma : Passes .outside s .outside tail :=
              (heq ▸ hfirst).trans (.plain (by decide) (by decide))
            exact hcomma.trans ((passes_skipSpaces tail).trans (ihFields _ _ _ hfields))
        · cases h
    · intro s field rest h
      rw [readField.eq_def] at h
      dsimp only at h
      split at h
      · split at h
        · cases h
        · next key behind hkey =>
          have hname := (Passes.opening.trans (passes_readString hkey)).trans
            (passes_skipSpaces behind)
          split at h
          · next tail heq =>
            split at h
            · cases h
            · next hvalue =>
              cases h
              have hcolon := (heq ▸ hname).trans (Passes.plain (by decide) (by decide))
              exact hcolon.trans ((passes_skipSpaces tail).trans (ihValue _ _ _ hvalue))
          · cases h
      · cases h

/-- **The splitter passes every value that is read, and quotes are closed behind it.** -/
theorem passes_readValue {value : Json} (h : readValue s = .ok (value, rest)) :
    Passes .outside s .outside rest :=
  (passes_within _).1 s value rest h

end FlatCode.Cli
