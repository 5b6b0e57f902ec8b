import FlatCode.Proofs.Json.LongNumbers

/-!
# A string is read from its excerpt

What stands behind a string plays no part in it: the string is read from the excerpt that the
reader took (`TakesString.truncate`), and whatever more stands behind it (`TakesString.append`).

The reader is put as a relation first (`TakesString`), without its steps and without the place that
its errors name. A first half of a pair asks for what stands behind it, so there the text behind a
string could play a part: the second half is looked for only where an escape is complete
(`StandsAlone`).
-/

namespace FlatCode.Json

variable {s front middle rest tail : Text}

/-- What has a text as its rest ends as the text ends. -/
theorem exists_front_of_suffix (h : middle ++ tail <:+ s) :
    ∃ front, s = front ++ tail ∧ middle <:+ front := by
  obtain ⟨taken, rfl⟩ := h
  exact ⟨taken ++ middle, by rw [List.append_assoc], taken, rfl⟩

/-! ## Escapes -/

/-- A code unit shows in its digits and the character behind them. -/
theorem codeUnit?_append (h : 5 ≤ s.length) (tail : Text) :
    codeUnit? (s ++ tail) = (codeUnit? s).map fun (unit, rest) => (unit, rest ++ tail) := by
  match s, h with
  | a :: b :: c :: d :: next :: rest, _ =>
    simp only [codeUnit?, List.cons_append]
    cases hexDigit? a <;> cases hexDigit? b <;> cases hexDigit? c <;> cases hexDigit? d <;> rfl

theorem le_length_of_codeUnit? {unit : Nat} (h : codeUnit? s = some (unit, rest)) :
    5 ≤ s.length := by
  unfold codeUnit? at h
  split at h
  · simp only [List.length_cons]
    omega
  · cases h

theorem codeUnit?_truncate {unit : Nat} (h : codeUnit? (front ++ tail) = some (unit, rest ++ tail))
    (hrest : rest ≠ []) : codeUnit? front = some (unit, rest) := by
  have hlength := length_codeUnit? h
  have hpos := List.length_pos_iff.mpr hrest
  rw [List.length_append, List.length_append] at hlength
  rw [codeUnit?_append (by omega)] at h
  obtain ⟨⟨unit', rest'⟩, hunit, heq⟩ := Option.map_eq_some_iff.mp h
  obtain ⟨rfl, happend⟩ := Prod.mk.inj heq
  rw [hunit, List.append_cancel_right happend]

/-- Whether a code unit stands alone in front of a text: no second half of a pair follows that is
complete. -/
def StandsAlone (unit : Nat) (rest : Text) : Prop :=
  isHighSurrogate unit = true → ∀ more, rest = .char '\\' :: .char 'u' :: more →
    more.length < 5 ∨ ∃ low behind, codeUnit? more = some (low, behind) ∧ isLowSurrogate low = false

theorem StandsAlone.truncate {unit : Nat} (h : StandsAlone unit (rest ++ tail)) :
    StandsAlone unit rest := by
  rintro hhigh more rfl
  by_cases hlength : more.length < 5
  · exact .inl hlength
  · rcases h hhigh (more ++ tail) rfl with hshort | ⟨low, behind, hunit, hlow⟩
    · rw [List.length_append] at hshort
      omega
    · rw [codeUnit?_append (by omega)] at hunit
      obtain ⟨⟨low', behind'⟩, hunit', heq⟩ := Option.map_eq_some_iff.mp hunit
      obtain ⟨rfl, -⟩ := Prod.mk.inj heq
      exact .inr ⟨_, _, hunit', hlow⟩

/-- What is taken behind `\u`: the character of a code unit that stands alone, or of a pair. -/
inductive TakesUnicode : Text → CodePoint → Text → Prop
  | alone {s rest : Text} {unit : Nat} (hunit : codeUnit? s = some (unit, rest))
      (halone : StandsAlone unit rest) : TakesUnicode s (codePointOfUnit unit) rest
  | pair {s more rest : Text} {high low : Nat}
      (hunit : codeUnit? s = some (high, .char '\\' :: .char 'u' :: more))
      (hhigh : isHighSurrogate high = true) (hmore : codeUnit? more = some (low, rest))
      (hlow : isLowSurrogate low = true) :
      TakesUnicode s (joinSurrogates high low) rest

theorem takesUnicode_of_read {c : CodePoint} (h : readUnicodeEscape s = .ok (c, rest)) :
    TakesUnicode s c rest := by
  unfold readUnicodeEscape at h
  split at h
  · cases h
  · next unit behind hunit =>
    split at h
    · next more hhigh =>
      split at h
      · next hshort =>
        cases h
        refine .alone hunit fun _ more' heq => .inl ?_
        rwa [← (List.cons.inj (List.cons.inj heq).2).2]
      · split at h
        · cases h
        · next low behind' hmore =>
          split at h
          · next hlow =>
            obtain ⟨rfl, rfl⟩ := Prod.mk.inj (Except.ok.inj h)
            exact .pair hunit hhigh hmore hlow
          · next hlow =>
            cases h
            refine .alone hunit fun _ more' heq => .inr ⟨low, behind', ?_, by simpa using hlow⟩
            rwa [← (List.cons.inj (List.cons.inj heq).2).2]
    · next hnone =>
      cases h
      exact .alone hunit fun hhigh more heq => (hnone more hhigh heq).elim

theorem TakesUnicode.read {c : CodePoint} (h : TakesUnicode s c rest) :
    readUnicodeEscape s = .ok (c, rest) := by
  cases h with
  | alone hunit halone =>
    unfold readUnicodeEscape
    rw [hunit]
    dsimp only
    split
    · next more hhigh =>
      rcases halone hhigh more rfl with hshort | ⟨low, behind, hmore, hlow⟩
      · rw [if_pos hshort]
      · rw [if_neg (by have := le_length_of_codeUnit? hmore; omega), hmore]
        simp [hlow]
    · rfl
  | pair hunit hhigh hmore hlow =>
    unfold readUnicodeEscape
    rw [hunit]
    simp only [hhigh]
    rw [if_neg (by have := le_length_of_codeUnit? hmore; omega), hmore]
    simp [hlow]

/-- **An escape is read from its excerpt.** -/
theorem TakesUnicode.truncate {c : CodePoint} (h : TakesUnicode (front ++ tail) c (rest ++ tail))
    (hrest : rest ≠ []) : TakesUnicode front c rest := by
  generalize hs : front ++ tail = s at h
  generalize hr : rest ++ tail = r at h
  cases h with
  | alone hunit halone =>
    subst hs hr
    exact .alone (codeUnit?_truncate hunit hrest) halone.truncate
  | pair hunit hhigh hmore hlow =>
    subst hs hr
    have hsuffix := suffix_of_passes (Cli.passes_codeUnit? hmore)
    obtain ⟨between, rfl, -⟩ := exists_front_of_suffix hsuffix
    have hnext := codeUnit?_truncate hunit (List.cons_ne_nil (.char '\\') (.char 'u' :: between))
    exact .pair hnext hhigh (codeUnit?_truncate hmore hrest) hlow

/-! ## Strings -/

/-- What is taken of a string: a character as it is or escaped, or the closing quote (`none`). -/
inductive TakesElement : Text → Option CodePoint → Text → Prop
  | close {rest : Text} : TakesElement (.char '"' :: rest) none rest
  | unicode {s rest : Text} {c : CodePoint} (h : TakesUnicode s c rest) :
      TakesElement (.char '\\' :: .char 'u' :: s) (some c) rest
  | letter {rest : Text} {letter c : CodePoint} (h : escaped? letter = some c) :
      TakesElement (.char '\\' :: letter :: rest) (some c) rest
  | raw {rest : Text} {c : CodePoint} (hquote : c ≠ .char '"') (hslash : c ≠ .char '\\')
      (hcontrol : 0x1F < c.toNat) : TakesElement (c :: rest) (some c) rest

/-- What is taken of a string up to its closing quote. -/
inductive TakesString : Text → Text → Text → Prop
  | close {s rest : Text} (h : TakesElement s none rest) : TakesString s [] rest
  | cons {s behind rest cs : Text} {c : CodePoint} (h : TakesElement s (some c) behind)
      (hbehind : TakesString behind cs rest) : TakesString s (c :: cs) rest

theorem takesElement_of_read {opening : Nat} {element : Option CodePoint}
    (h : readElement opening s = .ok (element, rest)) : TakesElement s element rest := by
  unfold readElement at h
  split at h
  · cases h
  · cases h
    exact .close
  · cases h
  · next behind =>
    cases hc : readUnicodeEscape behind with
    | error e =>
      rw [hc] at h
      cases h
    | ok reading =>
      rw [hc] at h
      cases h
      exact .unicode (takesUnicode_of_read hc)
  · split at h
    · next hletter =>
      cases h
      exact .letter hletter
    · cases h
  · next hquote hlast _ hslash =>
    split at h
    · cases h
    · next hcontrol =>
      cases h
      refine .raw hquote (fun hc => ?_) (by omega)
      cases rest with
      | nil => exact hlast hc rfl
      | cons d behind => exact hslash d behind hc rfl

theorem TakesElement.read {element : Option CodePoint} (h : TakesElement s element rest)
    (opening : Nat) : readElement opening s = .ok (element, rest) := by
  cases h with
  | close => rfl
  | unicode h =>
    rw [readElement, h.read]
    rfl
  | letter h =>
    rw [readElement, h]
    exact ne_u_of_escaped? h
  | raw hquote hslash hcontrol =>
    rw [readElement]
    · rw [if_neg (by omega)]
    · exact hquote
    · exact fun h _ => hslash h
    · exact fun _ h _ => hslash h
    · exact fun _ _ h _ => hslash h

theorem takesString_of_read {opening steps : Nat} {cs : Text}
    (h : stringWithin opening steps s = .ok (cs, rest)) : TakesString s cs rest := by
  induction steps generalizing s cs with
  | zero => cases h
  | succ steps ih =>
    rw [stringWithin] at h
    split at h
    · cases h
    · next hend =>
      cases h
      exact .close (takesElement_of_read hend)
    · next hc =>
      split at h
      · cases h
      · next hbehind =>
        cases h
        exact .cons (takesElement_of_read hc) (ih hbehind)

theorem TakesString.stringWithin {cs : Text} (h : TakesString s cs rest) (opening : Nat)
    {steps : Nat} (hsteps : s.length ≤ steps) :
    stringWithin opening steps s = .ok (cs, rest) := by
  induction h generalizing steps with
  | close h =>
    have hlength := length_readElement (h.read opening)
    obtain ⟨n, rfl⟩ := Nat.exists_eq_add_one_of_ne_zero (show steps ≠ 0 by omega)
    rw [Json.stringWithin, h.read]
  | cons h _ ih =>
    have hlength := length_readElement (h.read opening)
    obtain ⟨n, rfl⟩ := Nat.exists_eq_add_one_of_ne_zero (show steps ≠ 0 by omega)
    rw [Json.stringWithin, h.read]
    dsimp only
    rw [ih (by omega)]

/-- What is read as a string, in relational form. -/
theorem readString_eq_ok_iff {cs : Text} :
    readString s = .ok (cs, rest) ↔ TakesString s cs rest :=
  ⟨takesString_of_read, fun h => h.stringWithin _ (Nat.le_succ _)⟩

theorem TakesElement.suffix {element : Option CodePoint} (h : TakesElement s element rest) :
    rest <:+ s :=
  suffix_of_passes (Cli.passes_readElement (h.read 0))

theorem TakesString.suffix {cs : Text} (h : TakesString s cs rest) : rest <:+ s :=
  suffix_of_passes (Cli.passes_readString (readString_eq_ok_iff.mpr h))

theorem TakesString.length_lt {cs : Text} (h : TakesString s cs rest) :
    rest.length < s.length := by
  have := length_readString (readString_eq_ok_iff.mpr h)
  omega

/-- **A character is read from its excerpt**, if the string goes on there. -/
theorem TakesElement.truncate {element : Option CodePoint}
    (h : TakesElement (front ++ tail) element (rest ++ tail))
    (hrest : element.isSome = true → rest ≠ []) : TakesElement front element rest := by
  generalize hs : front ++ tail = s at h
  generalize hr : rest ++ tail = r at h
  cases h with
  | close =>
    subst hr
    obtain rfl : front = .char '"' :: rest := List.append_cancel_right hs
    exact .close
  | @unicode behind _ c h =>
    subst hr
    obtain ⟨between, rfl, -⟩ :=
      exists_front_of_suffix (suffix_of_passes (Cli.passes_readUnicodeEscape h.read))
    obtain rfl : front = .char '\\' :: .char 'u' :: between := List.append_cancel_right hs
    exact .unicode (h.truncate (hrest rfl))
  | @letter _ letter c h =>
    subst hr
    obtain rfl : front = .char '\\' :: letter :: rest := List.append_cancel_right hs
    exact .letter h
  | @raw _ c hquote hslash hcontrol =>
    subst hr
    obtain rfl : front = c :: rest := List.append_cancel_right hs
    exact .raw hquote hslash hcontrol

/-- **A string is read from its excerpt.** -/
theorem TakesString.truncate {cs : Text} (h : TakesString (front ++ tail) cs (rest ++ tail)) :
    TakesString front cs rest := by
  generalize hs : front ++ tail = s at h
  generalize hr : rest ++ tail = r at h
  induction h generalizing front with
  | close h =>
    subst hs hr
    exact .close (h.truncate nofun)
  | cons h hbehind ih =>
    subst hs hr
    obtain ⟨between, rfl, hbetween⟩ := exists_front_of_suffix hbehind.suffix
    have hlength := hbehind.length_lt
    refine .cons (h.truncate fun _ hnil => ?_) (ih rfl rfl)
    rw [hnil, List.length_append, List.length_append, List.length_nil] at hlength
    omega

/-! ## More text behind a string -/

theorem codeUnit?_append_of_some {unit : Nat} (h : codeUnit? s = some (unit, rest))
    (more : Text) : codeUnit? (s ++ more) = some (unit, rest ++ more) := by
  rw [codeUnit?_append (le_length_of_codeUnit? h), h]
  rfl

theorem TakesUnicode.exists_unit {c : CodePoint} (h : TakesUnicode s c rest) :
    ∃ unit behind, codeUnit? s = some (unit, behind) := by
  cases h with
  | alone hunit _ => exact ⟨_, _, hunit⟩
  | pair hunit _ _ _ => exact ⟨_, _, hunit⟩

/-- An escape that is taken is complete, so it was looked at before. -/
theorem StandsAlone.append {unit : Nat} {next : Option CodePoint} {behind : Text}
    (h : StandsAlone unit rest) (hnext : TakesElement rest next behind) (more : Text) :
    StandsAlone unit (rest ++ more) := by
  intro hhigh text htext
  cases hnext with
  | close => cases (List.cons.inj htext).1
  | raw hquote hslash hcontrol => exact absurd (List.cons.inj htext).1 hslash
  | letter hletter =>
    exact absurd (List.cons.inj (List.cons.inj htext).2).1 (ne_u_of_escaped? hletter)
  | @unicode s _ _ hunicode =>
    obtain rfl : s ++ more = text := (List.cons.inj (List.cons.inj htext).2).2
    obtain ⟨_, _, hunit⟩ := hunicode.exists_unit
    have hlength := le_length_of_codeUnit? hunit
    rcases h hhigh s rfl with hshort | ⟨low, behind, hlow, hnot⟩
    · omega
    · exact .inr ⟨low, behind ++ more, codeUnit?_append_of_some hlow more, hnot⟩

/-- A character is taken from a longer text too, if it stands in front of an element of the
string: then an escape that follows is complete. -/
theorem TakesElement.append {element next : Option CodePoint} {behind : Text}
    (h : TakesElement s element rest) (hnext : TakesElement rest next behind) (more : Text) :
    TakesElement (s ++ more) element (rest ++ more) := by
  cases h with
  | close => exact .close
  | letter h => exact .letter h
  | raw hquote hslash hcontrol => exact .raw hquote hslash hcontrol
  | unicode h =>
    refine .unicode ?_
    cases h with
    | pair hunit hhigh hmore hlow =>
      exact .pair (codeUnit?_append_of_some hunit more) hhigh (codeUnit?_append_of_some hmore more)
        hlow
    | alone hunit halone =>
      exact .alone (codeUnit?_append_of_some hunit more) (halone.append hnext more)

theorem TakesString.append {cs : Text} (h : TakesString s cs rest) (more : Text) :
    TakesString (s ++ more) cs (rest ++ more) := by
  induction h with
  | close h => 
    cases h
    exact .close .close
  | cons h hbehind ih =>
    cases hbehind with
    | close hnext => exact .cons (h.append hnext more) ih
    | cons hnext _ => exact .cons (h.append hnext more) ih

end FlatCode.Json
