import FlatCode.Cli.Inline

/-!
# Where the splitter cuts

The splitter reads a text from left to right and knows only where it stands with regard to quotes.
So it treats a text in two parts as the first part, then the second one from the place where the
first ends (`splitInlineFrom_append`), and what it does to joined lines is told by the lines
(`splitInlineFrom_joined_iff`).

A run of the splitter that makes no cut is a relation (`Passes`) between two ends of a text: it goes
from a place in front of the one to a place in front of the other. Runs are put together
(`Passes.trans`), so a reader of values is followed piece by piece.

* `splitInlineFrom_joined_iff` — joined lines come apart exactly if none of them is cut and quotes
  are closed in front of each semicolon between two
* `passes_nil_iff` — a run to the end of a text is a text that the splitter leaves as it is
-/

namespace FlatCode.Cli

/-! ## A text in two parts -/

/-- Where the character behind a text stands. -/
def Quotation.after (place : Quotation) (text : Text) : Quotation :=
  text.foldl Quotation.next place

variable {place last : Quotation} {c : CodePoint} {s front rest : Text}

theorem length_splitInlineFrom (place : Quotation) (s : Text) :
    (splitInlineFrom place s).length = s.length := by
  induction s generalizing place with
  | nil => rfl
  | cons c s ih => simp [splitInlineFrom, ih]

/-- The second part of a text is read from where the first one ends. -/
theorem splitInlineFrom_append (place : Quotation) (front rest : Text) :
    splitInlineFrom place (front ++ rest)
      = splitInlineFrom place front ++ splitInlineFrom (place.after front) rest := by
  induction front generalizing place with
  | nil => rfl
  | cons c front ih =>
    rw [List.cons_append, splitInlineFrom, splitInlineFrom, ih, List.cons_append]
    rfl

/-- A semicolon is a cut exactly outside quotes, and what is behind a cut is outside quotes. -/
theorem splitInlineFrom_semicolon_eq_iff (place : Quotation) (rest behind : Text) :
    splitInlineFrom place (.char ';' :: rest) = .char '\n' :: behind ↔
      place = .outside ∧ splitInlineFrom .outside rest = behind := by
  cases place <;> simp [splitInlineFrom, Quotation.next]

/-- The first of joined lines comes apart from the others. -/
theorem splitInlineFrom_front_eq_iff (line rest behind : Text) :
    splitInlineFrom .outside (line ++ .char ';' :: rest) = line ++ .char '\n' :: behind ↔
      splitInlineFrom .outside line = line ∧ Quotation.outside.after line = .outside ∧
        splitInlineFrom .outside rest = behind := by
  rw [splitInlineFrom_append, ← splitInlineFrom_semicolon_eq_iff]
  constructor
  · exact fun h => List.append_inj h (length_splitInlineFrom ..)
  · rintro ⟨hline, hrest⟩
    rw [hline, hrest]

/-- **Joined lines come apart exactly if none of them is cut and quotes are closed at the end of
each but the last.** -/
theorem splitInlineFrom_joined_iff (lines : List Text) :
    splitInlineFrom .outside (List.intercalate [.char ';'] lines)
        = List.intercalate [.char '\n'] lines ↔
      (∀ line ∈ lines, splitInlineFrom .outside line = line) ∧
        ∀ line ∈ lines.dropLast, Quotation.outside.after line = .outside := by
  induction lines with
  | nil => simp [splitInlineFrom]
  | cons line lines ih =>
    cases lines with
    | nil => simp
    | cons next lines =>
      simp only [List.intercalate_cons_cons, List.append_assoc, List.singleton_append,
        List.dropLast_cons_cons]
      rw [splitInlineFrom_front_eq_iff, ih]
      constructor
      · rintro ⟨hline, hclosed, hlines, hends⟩
        exact ⟨List.forall_mem_cons.mpr ⟨hline, hlines⟩,
          List.forall_mem_cons.mpr ⟨hclosed, hends⟩⟩
      · rintro ⟨hlines, hends⟩
        obtain ⟨hline, hlines⟩ := List.forall_mem_cons.mp hlines
        obtain ⟨hclosed, hends⟩ := List.forall_mem_cons.mp hends
        exact ⟨hline, hclosed, hlines, hends⟩

/-! ## Runs without a cut -/

/-- Whether the splitter gets from a place in front of a text to a place in front of the rest of it
and makes no cut on the way. -/
inductive Passes : Quotation → Text → Quotation → Text → Prop
  | stop {place : Quotation} {s : Text} : Passes place s place s
  | step {place last : Quotation} {c : CodePoint} {s rest : Text}
      (hcut : ¬(place = .outside ∧ c = .char ';')) (behind : Passes (place.next c) s last rest) :
      Passes place (c :: s) last rest

/-- A character of a kind that semicolons and quotes are not of is neither. -/
theorem ne_of_kind {p : CodePoint → Bool} (hcut : p (.char ';') = false)
    (hquote : p (.char '"') = false) (h : p c = true) : c ≠ .char ';' ∧ c ≠ .char '"' := by
  constructor
  · rintro rfl
    simp [hcut] at h
  · rintro rfl
    simp [hquote] at h

namespace Passes

theorem trans {middle : Quotation} {t : Text} (h : Passes place s middle t)
    (h' : Passes middle t last rest) : Passes place s last rest := by
  induction h with
  | stop => exact h'
  | step hcut _ ih => exact .step hcut (ih h')

/-- What stands behind the rest makes no difference. -/
theorem append (h : Passes place s last rest) (more : Text) :
    Passes place (s ++ more) last (rest ++ more) := by
  induction h with
  | stop => exact .stop
  | step hcut _ ih => exact .step hcut ih

/-! ### One character -/

/-- Outside quotes a character that is no semicolon and no quote changes nothing. -/
theorem plain (hcut : c ≠ .char ';') (hquote : c ≠ .char '"') :
    Passes .outside (c :: s) .outside s :=
  .step (fun h => hcut h.2) (by rw [Quotation.next, if_neg hquote]; exact .stop)

theorem opening : Passes .outside (.char '"' :: s) .inside s := .step (by decide) .stop

/-- Inside quotes a character that is no quote and no backslash changes nothing. -/
theorem quoted (hquote : c ≠ .char '"') (hslash : c ≠ .char '\\') :
    Passes .inside (c :: s) .inside s :=
  .step (by simp) (by rw [Quotation.next, if_neg hslash, if_neg hquote]; exact .stop)

/-- Any character may stand behind a backslash. -/
theorem escape : Passes .inside (.char '\\' :: c :: s) .inside s :=
  .step (by decide) (.step (fun h => nomatch h.1) .stop)

theorem closing : Passes .inside (.char '"' :: s) .outside s := .step (by decide) .stop

/-! ### Many characters -/

/-- Leading characters that are neither semicolons nor quotes change nothing. -/
theorem dropWhile {p : CodePoint → Bool} (h : ∀ c ∈ s.takeWhile p, c ≠ .char ';' ∧ c ≠ .char '"') :
    Passes .outside s .outside (s.dropWhile p) := by
  induction s with
  | nil => exact .stop
  | cons c s ih =>
    cases hc : p c with
    | false => simpa [hc] using Passes.stop
    | true =>
      rw [List.takeWhile_cons_of_pos hc, List.forall_mem_cons] at h
      rw [List.dropWhile_cons_of_pos hc]
      exact (plain h.1.1 h.1.2).trans (ih h.2)

/-- Leading characters of a kind that semicolons and quotes are not of change nothing. -/
theorem dropKind {p : CodePoint → Bool} (hcut : p (.char ';') = false)
    (hquote : p (.char '"') = false) (s : Text) : Passes .outside s .outside (s.dropWhile p) :=
  dropWhile fun c hc => ne_of_kind hcut hquote (List.all_eq_true.mp List.all_takeWhile c hc)

/-- A text without semicolons and quotes is passed. -/
theorem of_plain (h : ∀ c ∈ s, c ≠ .char ';' ∧ c ≠ .char '"') : Passes .outside s .outside [] := by
  induction s with
  | nil => exact .stop
  | cons c s ih =>
    rw [List.forall_mem_cons] at h
    exact (plain h.1.1 h.1.2).trans (ih h.2)

end Passes

/-- **A run to the end of a text is a text that the splitter leaves as it is.** -/
theorem passes_nil_iff :
    Passes place s last [] ↔ splitInlineFrom place s = s ∧ place.after s = last := by
  constructor
  · intro h
    generalize hrest : ([] : Text) = rest at h
    induction h with
    | stop =>
      subst hrest
      exact ⟨rfl, rfl⟩
    | step hcut _ ih =>
      obtain ⟨hsplit, hafter⟩ := ih hrest
      rw [splitInlineFrom, if_neg hcut, hsplit]
      exact ⟨rfl, hafter⟩
  · rintro ⟨hsplit, rfl⟩
    induction s generalizing place with
    | nil => exact .stop
    | cons c s ih =>
      obtain ⟨hc, hs⟩ := List.cons.inj hsplit
      refine .step ?_ (ih hs)
      rintro ⟨rfl, rfl⟩
      simp at hc

end FlatCode.Cli
