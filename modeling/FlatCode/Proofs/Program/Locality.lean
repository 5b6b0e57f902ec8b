import FlatCode.Proofs.Json.Decidable
import FlatCode.Proofs.Program.Joining

/-!
# Texts one under the other

A line feed ends a line whatever text it stands behind. So of two texts that are put one under the
other each is read as it is read alone, only that an error of the second is found further down. And
lines that are skipped may stand anywhere between the others: they move errors, and nothing else.

* `parse_append` — a text and the text under it are read one after the other
* `Padded.parse_mapError` — lines that are skipped change neither the program nor what is wrong
* `parse_lineByLine` — how the parts of a text decide about the whole
-/

namespace FlatCode

open Text

variable {registry : Registry}

/-! ## Lines further down -/

/-- The number of lines of a text. -/
def Text.lineCount (text : Text) : Nat := (splitLines text).length

/-- An error with some more lines in front of it. -/
def SourceError.behind (count : Nat) (error : SourceError) : SourceError :=
  ⟨error.line + count, error.cause⟩

/-- Lines that stand further down fail further down. -/
theorem instructionsFrom_add (registry : Registry) (number count : Nat)
    (lines : List Text) :
    instructionsFrom registry (number + count) lines
      = (instructionsFrom registry number lines).mapError (SourceError.behind count) := by
  induction lines generalizing number with
  | nil => rfl
  | cons line lines ih =>
    rw [instructionsFrom, instructionsFrom, Nat.add_right_comm]
    split
    · exact ih (number + 1)
    · cases Instruction.ofEntry registry (trim line) with
      | error cause => rfl
      | ok instr =>
        dsimp only
        rw [ih (number + 1)]
        cases instructionsFrom registry (number + 1) lines with
        | error e => rfl
        | ok others => rfl

/-- An empty line at the end holds nothing. -/
theorem instructionsFrom_concat_nil (registry : Registry) (number : Nat)
    (lines : List Text) :
    instructionsFrom registry number (lines ++ [[]]) = instructionsFrom registry number lines := by
  rw [instructionsFrom_append]
  cases instructionsFrom registry number lines with
  | error e => rfl
  | ok instrs => exact congrArg Except.ok (List.append_nil instrs)

/-- A line feed at the end of a text makes no difference. -/
theorem instructionsFrom_lineFeed (registry : Registry) (number : Nat) (s : Text) :
    instructionsFrom registry number (splitLines (s ++ [.char '\n']))
      = instructionsFrom registry number (splitLines s) := by
  rcases splitLines_concat_lineFeed s with heq | heq
  · rw [heq]
  · rw [heq, instructionsFrom_concat_nil]

theorem append_lineFeed (a b : Text) : a ++ "\n" ++ b = a ++ .char '\n' :: b :=
  List.append_assoc a [.char '\n'] b

/-- **A text and the text under it are read one after the other**: the lines of the first one, and
the break behind it, stand in front of the errors of the second. -/
theorem parse_append (registry : Registry) (a b : Text) :
    Program.parse registry (a ++ "\n" ++ b)
      = (Program.parse registry a).bind fun p =>
          ((Program.parse registry b).map fun q =>
            (⟨p.instructions ++ q.instructions⟩ : Program)).mapError
              (SourceError.behind (lineCount (a ++ "\n"))) := by
  have hfeed : Text.ofString "\n" = [.char '\n'] := rfl
  unfold Program.parse lineCount
  rw [append_lineFeed, hfeed, splitLines_lineFeed, instructionsFrom_append,
    instructionsFrom_lineFeed, instructionsFrom_add]
  cases instructionsFrom registry 1 (splitLines a) with
  | error e => rfl
  | ok instrs =>
    cases instructionsFrom registry 1 (splitLines b) with
    | error e => rfl
    | ok others => rfl

/-! ## Lines that are skipped -/

/-- Whether lines come from others by putting lines that are skipped in front of them, between them
or behind them. -/
inductive Padded : List Text → List Text → Prop where
  | nil : Padded [] []
  | keep {lines padded : List Text} (line : Text) (h : Padded lines padded) :
    Padded (line :: lines) (line :: padded)
  | skip {lines padded : List Text} {line : Text}
    (hskipped : isSkipped (trim line) = true) (h : Padded lines padded) :
    Padded lines (line :: padded)

namespace Padded

variable {lines padded others : List Text}

theorem refl (lines : List Text) : Padded lines lines := by
  induction lines with
  | nil => exact .nil
  | cons line lines ih => exact .keep line ih

theorem append_left (h : Padded lines padded) (front : List Text) :
    Padded (front ++ lines) (front ++ padded) := by
  induction front with
  | nil => exact h
  | cons line front ih => exact .keep line ih

theorem skip_all (h : Padded lines padded)
    (hothers : ∀ line ∈ others, isSkipped (trim line) = true) :
    Padded lines (others ++ padded) := by
  induction others with
  | nil => exact h
  | cons line others ih =>
    obtain ⟨hline, hothers⟩ := List.forall_mem_cons.mp hothers
    exact .skip hline (ih hothers)

/-- The lines that are not skipped stay. -/
theorem entries_eq (h : Padded lines padded) :
    Program.entries padded = Program.entries lines := by
  induction h with
  | nil => rfl
  | keep line h ih =>
    unfold Program.entries at ih ⊢
    rw [List.map_cons, List.map_cons, List.filter_cons, List.filter_cons, ih]
  | skip hskipped h ih =>
    unfold Program.entries at ih ⊢
    rw [List.map_cons, List.filter_cons_of_neg (by simp [hskipped]), ih]

/-- **Lines that are skipped change neither the program of a text nor what is wrong with it.** -/
theorem parse_mapError {text other : Text}
    (h : Padded (splitLines text) (splitLines other)) :
    (Program.parse registry other).mapError SourceError.cause
      = (Program.parse registry text).mapError SourceError.cause := by
  have hcause (s : Text) : (Program.parse registry s).mapError SourceError.cause
      = ((Program.entries (splitLines s)).mapM (Instruction.ofEntry registry)).map
          Program.mk := by
    rw [← instructionsFrom_mapError_cause registry 1, Program.parse]
    cases instructionsFrom registry 1 (splitLines s) with
    | error e => rfl
    | ok instrs => rfl
  rw [hcause, hcause, h.entries_eq]

/-- What stands between two texts pads the text of both if its lines are skipped. -/
theorem between (a b : Text) {remarks : Text}
    (h : ∀ line ∈ splitLines remarks, isSkipped (trim line) = true) :
    Padded (splitLines (a ++ "\n" ++ b)) (splitLines (a ++ "\n" ++ remarks ++ "\n" ++ b)) := by
  have hremarks : ∀ line ∈ splitLines (remarks ++ [.char '\n']),
      isSkipped (trim line) = true := by
    rcases splitLines_concat_lineFeed remarks with heq | heq
    · rw [heq]
      exact h
    · rw [heq]
      exact List.forall_mem_append.mpr ⟨h, List.forall_mem_singleton.mpr rfl⟩
  rw [append_lineFeed, append_lineFeed, append_lineFeed, List.append_assoc, List.cons_append,
    splitLines_lineFeed a b, splitLines_lineFeed a (remarks ++ _), splitLines_lineFeed remarks]
  exact ((Padded.refl _).skip_all hremarks).append_left _

end Padded

/-! ## Texts and their parts -/

/-- **Each line is read by itself.** If two texts are read, the one under the other is read, with
the instructions of both. If the first is not read the whole is not, with the same error at the same
line. If only the second is not read the whole has its error, as many lines further down as the
first has, the line feed behind it included. So lines that are skipped may be put between any two
lines: the program stays the same, or what is wrong with the text does. -/
theorem parse_lineByLine (registry : Registry) :
    (∀ a b p q, Program.parse registry a = .ok p → Program.parse registry b = .ok q →
      Program.parse registry (a ++ "\n" ++ b) = .ok ⟨p.instructions ++ q.instructions⟩) ∧
    (∀ a b e, Program.parse registry a = .error e →
      Program.parse registry (a ++ "\n" ++ b) = .error e) ∧
    (∀ a b p e, Program.parse registry a = .ok p → Program.parse registry b = .error e →
      Program.parse registry (a ++ "\n" ++ b)
        = .error ⟨e.line + lineCount (a ++ "\n"), e.cause⟩) ∧
    (∀ a b remarks, (∀ line ∈ splitLines remarks, isSkipped (trim line) = true) →
      (Program.parse registry (a ++ "\n" ++ remarks ++ "\n" ++ b)).mapError SourceError.cause
        = (Program.parse registry (a ++ "\n" ++ b)).mapError SourceError.cause) ∧
    ∀ text padded, Padded (splitLines text) (splitLines padded) →
      (∀ p, Program.parse registry padded = .ok p ↔ Program.parse registry text = .ok p) ∧
      (Program.parse registry padded).mapError SourceError.cause
        = (Program.parse registry text).mapError SourceError.cause := by
  refine ⟨fun a b p q ha hb => ?_, fun a b e ha => ?_, fun a b p e ha hb => ?_,
    fun a b remarks h => (Padded.between a b h).parse_mapError, fun text padded h => ⟨fun p => ?_,
    h.parse_mapError⟩⟩
  · rw [parse_append, ha, hb]
    rfl
  · rw [parse_append, ha]
    rfl
  · rw [parse_append, ha, hb]
    rfl
  · rw [← mapError_eq_ok_iff, h.parse_mapError, mapError_eq_ok_iff]

/-- A text that ends in the first half of a break, over one that starts with a break and fails in
its third line; and remarks between the two lines of another. -/
theorem parse_lineByLine_halfBreak :
    let front : Text := "# a loop\nBeginIf\r"
    let back : Text := "\x0b  EndIf 1\nFrobnicate"
    Program.parse .builtin front = .ok ⟨[⟨.ofBegin "BeginIf", []⟩]⟩ ∧
    Program.parse .builtin back = .error ⟨3, .operation (.unknown "Frobnicate")⟩ ∧
    Program.parse .builtin (front ++ "\n" ++ back)
      = .error ⟨5, .operation (.unknown "Frobnicate")⟩ ∧
    Program.parse .builtin "BeginIf\r\n\x1c # remark\rEndIf"
      = .ok ⟨[⟨.ofBegin "BeginIf", []⟩, ⟨.ofEnd "EndIf", []⟩]⟩ := by
  intro front back
  have hfront : Program.parse .builtin front = .ok ⟨[⟨.ofBegin "BeginIf", []⟩]⟩ :=
    eq_ok_of_toOption (by decide +kernel)
  have hback : Program.parse .builtin back = .error ⟨3, .operation (.unknown "Frobnicate")⟩ :=
    eq_error_of_failure? (by decide +kernel)
  have hplain : Program.parse .builtin "BeginIf\nEndIf"
      = .ok ⟨[⟨.ofBegin "BeginIf", []⟩, ⟨.ofEnd "EndIf", []⟩]⟩ :=
    eq_ok_of_toOption (by decide +kernel)
  have hlines : splitLines "BeginIf\nEndIf" = ["BeginIf", "EndIf"] ∧
      splitLines "BeginIf\r\n\x1c # remark\rEndIf"
        = ["BeginIf", "", " # remark", "EndIf"] := by
    decide +kernel
  have hpadded : Padded (splitLines "BeginIf\nEndIf")
      (splitLines "BeginIf\r\n\x1c # remark\rEndIf") := by
    rw [hlines.1, hlines.2]
    exact .keep _ (.skip (by decide) (.skip (by decide) (.refl _)))
  obtain ⟨-, -, hfails, -, hpad⟩ := parse_lineByLine .builtin
  refine ⟨hfront, hback, ?_, ((hpad _ _ hpadded).1 _).mpr hplain⟩
  have hcount : lineCount (front ++ "\n") = 2 := by decide +kernel
  rw [hfails front back _ _ hfront hback, hcount]

end FlatCode
