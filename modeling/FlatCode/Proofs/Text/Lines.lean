import FlatCode.Text.Blank
import FlatCode.Text.Lines

/-!
# Lines that are put together are cut apart

Every line break is blank, so text whose only blanks are spaces is one line.

* `splitLines_flatMap` — lines with a line feed behind each are cut into the same lines
* `splitLines_lineFeed` — text is cut by itself on either side of a line feed
* `trim_of_ends` — trimming stops at the first and the last character that is no blank
* `trim_trim` — trimmed text has no blanks at its ends
-/

namespace FlatCode.Text

/-- What stands in parts with separators between them stands in one of them. -/
theorem mem_intercalate {α : Type} {separator : List α} {c : α} :
    ∀ {parts : List (List α)}, c ∈ List.intercalate separator parts →
      c ∈ separator ∨ ∃ part ∈ parts, c ∈ part
  | [], h => by simp at h
  | [part], h => by
    rw [List.intercalate_singleton] at h
    exact .inr ⟨part, List.mem_cons_self, h⟩
  | part :: second :: parts, h => by
    rw [List.intercalate_cons_cons] at h
    rcases List.mem_append.mp h with h | h
    · rcases List.mem_append.mp h with h | h
      · exact .inr ⟨part, List.mem_cons_self, h⟩
      · exact .inl h
    · rcases mem_intercalate h with h | ⟨p, hp, hc⟩
      · exact .inl h
      · exact .inr ⟨p, List.mem_cons_of_mem _ hp, hc⟩

theorem isBlank_of_isLineBreak {c : CodePoint} (h : isLineBreak c = true) : isBlank c = true := by
  unfold isLineBreak at h
  unfold isBlank
  simp only [Bool.or_eq_true, Bool.and_eq_true, decide_eq_true_eq, beq_iff_eq] at *
  omega

/-- What is no blank, apart from spaces, breaks no line. -/
theorem not_lineBreak_of_not_blank {c : CodePoint} (h : c = .char ' ' ∨ isBlank c = false) :
    isLineBreak c = false := by
  rcases h with rfl | h
  · decide
  · cases hbreak : isLineBreak c with
    | false => rfl
    | true =>
      rw [isBlank_of_isLineBreak hbreak] at h
      cases h

theorem splitLines_append {line : Text} (h : ∀ c ∈ line, isLineBreak c = false)
    (rest : Text) : splitLines (line ++ .char '\n' :: rest) = line :: splitLines rest := by
  induction line with
  | nil =>
    rw [List.nil_append, splitLines]
    · exact if_pos (by decide)
    · rintro _ h
      cases h
  | cons c line ih =>
    rw [List.cons_append, splitLines_cons (h c List.mem_cons_self),
      ih fun d hd => h d (List.mem_cons_of_mem _ hd), extendFirst]

/-- **Lines with a line feed behind each are cut into the same lines.** -/
theorem splitLines_flatMap {lines : List Text}
    (h : ∀ line ∈ lines, ∀ c ∈ line, isLineBreak c = false) :
    splitLines (lines.flatMap fun line => line ++ [.char '\n']) = lines := by
  induction lines with
  | nil => rfl
  | cons line lines ih =>
    rw [List.flatMap_cons, List.append_assoc, List.singleton_append,
      splitLines_append (h line List.mem_cons_self),
      ih fun l hl => h l (List.mem_cons_of_mem _ hl)]

/-! ## Text in front of a line feed -/

theorem splitLines_eq_nil_iff {s : Text} : splitLines s = [] ↔ s = [] := by
  refine ⟨fun h => ?_, fun h => by rw [h]; rfl⟩
  cases s with
  | nil => rfl
  | cons c rest =>
    unfold splitLines at h
    split at h
    · contradiction
    · cases h
    · split at h
      · cases h
      · unfold extendFirst at h
        split at h
        · cases h
        · cases h

/-- A break ends the first line, unless it is the first half of a longer one. -/
theorem splitLines_break {c : CodePoint} {rest : Text} (h : isLineBreak c = true)
    (hsingle : c = .char '\r' → rest.head? ≠ some (.char '\n')) :
    splitLines (c :: rest) = [] :: splitLines rest := by
  rw [splitLines]
  · exact if_pos h
  · rintro r rfl rfl
    exact hsingle rfl rfl

theorem extendFirst_append (c : CodePoint) {lines : List Text} (h : lines ≠ [])
    (more : List Text) : extendFirst c (lines ++ more) = extendFirst c lines ++ more := by
  cases lines with
  | nil => exact absurd rfl h
  | cons line lines => rfl

/-- Behind a character that is no half of a break in a text, a line feed can make it one only at the
end of the text. -/
theorem head?_append_lineFeed {c : CodePoint} {s : Text}
    (h : ∀ behind, c = .char '\r' → s = .char '\n' :: behind → False)
    (hend : ¬(c = .char '\r' ∧ s = [])) (rest : Text) :
    c = .char '\r' → (s ++ .char '\n' :: rest).head? ≠ some (.char '\n') := by
  rintro rfl hhead
  cases s with
  | nil => exact hend ⟨rfl, rfl⟩
  | cons d s =>
    cases hhead
    exact h s rfl rfl

/-- **A line feed ends a line whatever stands in front of it**, also as the second half of a break:
the lines behind it are those of the text behind it. -/
theorem splitLines_lineFeed (s rest : Text) :
    splitLines (s ++ .char '\n' :: rest) = splitLines (s ++ [.char '\n']) ++ splitLines rest := by
  induction s using splitLines.induct with
  | case1 => exact @splitLines_append [] (by simp) rest
  | case2 s ih => simp only [List.cons_append, splitLines_crlf, ih]
  | case3 c s hcrlf hbreak ih =>
    by_cases hend : c = .char '\r' ∧ s = []
    · obtain ⟨rfl, rfl⟩ := hend
      exact splitLines_crlf rest
    · have hsingle := head?_append_lineFeed hcrlf hend
      rw [List.cons_append, List.cons_append, splitLines_break hbreak (hsingle rest),
        splitLines_break hbreak (hsingle []), ih, List.cons_append]
  | case4 c s hcrlf hbreak ih =>
    have hc : isLineBreak c = false := by simpa using hbreak
    rw [List.cons_append, List.cons_append, splitLines_cons hc, splitLines_cons hc, ih,
      extendFirst_append c (by simp [splitLines_eq_nil_iff])]

/-- A line feed at the end ends the last line, or a line of its own if the last one is ended. -/
theorem splitLines_concat_lineFeed (s : Text) :
    splitLines (s ++ [.char '\n']) = splitLines s ∨
      splitLines (s ++ [.char '\n']) = splitLines s ++ [[]] := by
  induction s using splitLines.induct with
  | case1 => exact .inr rfl
  | case2 s ih => simpa only [List.cons_append, splitLines_crlf, List.cons_inj_right] using ih
  | case3 c s hcrlf hbreak ih =>
    by_cases hend : c = .char '\r' ∧ s = []
    · obtain ⟨rfl, rfl⟩ := hend
      exact .inl rfl
    · have hsingle : c = .char '\r' → s.head? ≠ some (.char '\n') := by
        rintro rfl hhead
        obtain ⟨behind, rfl⟩ := List.head?_eq_some_iff.mp hhead
        exact hcrlf behind rfl rfl
      rw [splitLines_break hbreak hsingle, List.cons_append, List.cons_append,
        splitLines_break hbreak (head?_append_lineFeed hcrlf hend []), List.cons_inj_right,
        List.cons_inj_right]
      exact ih
  | case4 c s hcrlf hbreak ih =>
    have hc : isLineBreak c = false := by simpa using hbreak
    rw [List.cons_append, splitLines_cons hc, splitLines_cons hc]
    by_cases hs : s = []
    · subst hs
      exact .inl rfl
    · rcases ih with ih | ih
      · exact .inl (by rw [ih])
      · refine .inr ?_
        rw [ih, extendFirst_append c (by rwa [ne_eq, splitLines_eq_nil_iff])]

/-! ## Ends of a text -/

/-- Whether a text starts with a character that is no blank. -/
def StartsVisibly (s : Text) : Prop := ∃ c behind, s = c :: behind ∧ isBlank c = false

/-- Whether a text ends with a character that is no blank. -/
def EndsVisibly (s : Text) : Prop := ∃ front c, s = front ++ [c] ∧ isBlank c = false

theorem StartsVisibly.append {s : Text} (h : StartsVisibly s) (rest : Text) :
    StartsVisibly (s ++ rest) := by
  obtain ⟨c, behind, rfl, hc⟩ := h
  exact ⟨c, behind ++ rest, rfl, hc⟩

theorem EndsVisibly.append {s : Text} (h : EndsVisibly s) (before : Text) :
    EndsVisibly (before ++ s) := by
  obtain ⟨front, c, rfl, hc⟩ := h
  exact ⟨before ++ front, c, (List.append_assoc ..).symm, hc⟩

/-- A text without blanks starts and ends visibly. -/
theorem visible_ends {s : Text} (hne : s ≠ []) (h : ∀ c ∈ s, isBlank c = false) :
    StartsVisibly s ∧ EndsVisibly s := by
  refine ⟨?_, s.dropLast, s.getLast hne, (List.dropLast_concat_getLast hne).symm,
    h _ (List.getLast_mem hne)⟩
  cases s with
  | nil => exact absurd rfl hne
  | cons c behind => exact ⟨c, behind, rfl, h c List.mem_cons_self⟩

theorem dropBlanks_of_starts {s : Text} (h : StartsVisibly s) : dropBlanks s = s := by
  obtain ⟨c, behind, rfl, hc⟩ := h
  exact List.dropWhile_cons_of_neg (by simp [hc])

theorem dropBlanksEnd_of_ends {s : Text} (h : EndsVisibly s) : dropBlanksEnd s = s := by
  obtain ⟨front, c, rfl, hc⟩ := h
  unfold dropBlanksEnd
  rw [List.reverse_append, List.reverse_singleton, List.singleton_append,
    List.dropWhile_cons_of_neg (by simp [hc]), List.reverse_cons, List.reverse_reverse]

/-- **Indentation is trimmed off, and nothing else of a text that starts and ends visibly.** -/
theorem trim_of_ends {s : Text} (hstart : StartsVisibly s) (hend : EndsVisibly s) (n : Nat) :
    trim (List.replicate n (.char ' ') ++ s) = s := by
  unfold trim
  have hdrop : dropBlanks (List.replicate n (.char ' ') ++ s) = s := by
    rw [dropBlanks, List.dropWhile_append_of_pos]
    · exact dropBlanks_of_starts hstart
    · intro c hc
      rw [List.eq_of_mem_replicate hc]
      decide
  rw [hdrop, dropBlanksEnd_of_ends hend]

theorem startsVisibly_dropBlanks {s : Text} (h : dropBlanks s ≠ []) :
    StartsVisibly (dropBlanks s) := by
  induction s with
  | nil => exact absurd rfl h
  | cons c s ih =>
    unfold dropBlanks at h ih ⊢
    cases hc : isBlank c with
    | true =>
      rw [List.dropWhile_cons_of_pos hc] at h ⊢
      exact ih h
    | false =>
      rw [List.dropWhile_cons_of_neg (by simp [hc])]
      exact ⟨c, s, rfl, hc⟩

theorem endsVisibly_dropBlanksEnd {s : Text} (h : dropBlanksEnd s ≠ []) :
    EndsVisibly (dropBlanksEnd s) := by
  have hne : dropBlanks s.reverse ≠ [] := fun hnil => h (congrArg List.reverse hnil)
  obtain ⟨c, behind, heq, hc⟩ := startsVisibly_dropBlanks hne
  refine ⟨behind.reverse, c, ?_, hc⟩
  unfold dropBlanks at heq
  rw [dropBlanksEnd, heq, List.reverse_cons]

/-- Blanks at the end are behind the first visible character. -/
theorem StartsVisibly.dropBlanksEnd {s : Text} (h : StartsVisibly s) :
    StartsVisibly (dropBlanksEnd s) := by
  obtain ⟨c, behind, rfl, hc⟩ := h
  unfold Text.dropBlanksEnd
  rw [List.reverse_cons, List.dropWhile_append]
  split
  · rw [List.dropWhile_cons_of_neg (by simp [hc])]
    exact ⟨c, [], rfl, hc⟩
  · rw [List.reverse_append]
    exact ⟨c, _, rfl, hc⟩

/-- Trimming takes nothing but blanks off. -/
theorem mem_trim_of_mem {c : CodePoint} {s : Text} (h : c ∈ s) :
    c ∈ trim s ∨ isBlank c = true := by
  have mem_dropWhile : ∀ {t : Text}, c ∈ t → c ∈ t.dropWhile isBlank ∨ isBlank c = true := by
    intro t ht
    rw [← @List.takeWhile_append_dropWhile _ isBlank t] at ht
    refine (List.mem_append.mp ht).symm.imp_right fun hc => ?_
    exact List.all_eq_true.mp List.all_takeWhile c hc
  rcases mem_dropWhile h with hdrop | hblank
  · unfold trim dropBlanksEnd
    rw [List.mem_reverse]
    exact mem_dropWhile (List.mem_reverse.mpr hdrop)
  · exact .inr hblank

/-- **Trimmed text has no blanks at its ends.** -/
theorem trim_trim (s : Text) : trim (trim s) = trim s := by
  by_cases hnil : dropBlanks s = []
  · have htrim : trim s = [] := by rw [trim, hnil]; rfl
    rw [htrim]
    rfl
  · have hstart := (startsVisibly_dropBlanks hnil).dropBlanksEnd
    have hend := endsVisibly_dropBlanksEnd (by
      obtain ⟨c, behind, heq, -⟩ := hstart
      rw [heq]
      exact List.cons_ne_nil c behind)
    exact trim_of_ends hstart hend 0

end FlatCode.Text
