import FlatCode.Program.Source
import FlatCode.Proofs.Program.ArgumentText
import FlatCode.Proofs.Results
import FlatCode.Proofs.Text.Lines

/-!
# Reading joined lines

A line of a text is read by itself: which instruction it holds depends neither on its number nor on
the lines around it. So lines that are read one by one are read as well when they are joined, and
give their instructions one after the other (`parse_joined`).

A line that is empty has no line break behind it where it is the last one, and then the text has no
such line; that makes no difference, for an empty line is skipped.
-/

namespace FlatCode

open Text

variable {registry : Registry} {number : Nat} {line : Text} {lines : List Text}
  {instrs found : List Instruction}

/-! ## Lines by themselves -/

theorem splitLines_of_not_lineBreak (hne : line ≠ []) (h : ∀ c ∈ line, isLineBreak c = false) :
    splitLines line = [line] := by
  induction line with
  | nil => exact absurd rfl hne
  | cons c behind ih =>
    rw [List.forall_mem_cons] at h
    rw [splitLines_cons h.1]
    cases behind with
    | nil => rfl
    | cons d behind => rw [ih (by simp) h.2, extendFirst]

/-- **Lines are read one after the other**, up to the first with an error. -/
theorem instructionsFrom_append (registry : Registry) (number : Nat)
    (lines more : List Text) :
    instructionsFrom registry number (lines ++ more)
      = (instructionsFrom registry number lines).bind fun instrs =>
          (instructionsFrom registry (number + lines.length) more).map (instrs ++ ·) := by
  induction lines generalizing number with
  | nil =>
    rw [List.nil_append, instructionsFrom]
    change _ = (instructionsFrom registry number more).map ([] ++ ·)
    cases instructionsFrom registry number more with
    | error e => rfl
    | ok instrs => rfl
  | cons line lines ih =>
    have hnumber : number + (line :: lines).length = number + 1 + lines.length := by
      rw [List.length_cons]
      omega
    rw [List.cons_append, instructionsFrom, instructionsFrom, hnumber]
    split
    · exact ih (number + 1)
    · cases Instruction.ofEntry registry (trim line) with
      | error cause => rfl
      | ok instr =>
        dsimp only
        rw [ih (number + 1)]
        cases instructionsFrom registry (number + 1) lines with
        | error e => rfl
        | ok instrs =>
          change Except.map _ (Except.map _ _) = Except.map _ _
          cases instructionsFrom registry (number + 1 + lines.length) more with
          | error e => rfl
          | ok others => rfl

/-- The first line is read by itself, then those behind it. -/
theorem instructionsFrom_cons (h : instructionsFrom registry number [line] = .ok instrs)
    (lines : List Text) :
    instructionsFrom registry number (line :: lines)
      = (instructionsFrom registry (number + 1) lines).map (instrs ++ ·) := by
  rw [← List.singleton_append, instructionsFrom_append, h]
  rfl

/-- The lines that are not skipped, trimmed. -/
def Program.entries (lines : List Text) : List Text :=
  (lines.map trim).filter fun entry => !isSkipped entry

/-- **What lines hold, and what is wrong with them, is told by those that are not skipped.** The
number of a line shows in no instruction and in no cause of an error. -/
theorem instructionsFrom_mapError_cause (registry : Registry) (number : Nat)
    (lines : List Text) :
    (instructionsFrom registry number lines).mapError SourceError.cause
      = (Program.entries lines).mapM (Instruction.ofEntry registry) := by
  induction lines generalizing number with
  | nil => rfl
  | cons line lines ih =>
    rw [instructionsFrom, Program.entries, List.map_cons]
    split
    · next hskipped =>
      rw [List.filter_cons_of_neg (by simp [hskipped])]
      exact ih (number + 1)
    · next hskipped =>
      rw [List.filter_cons_of_pos (by simp [hskipped]), List.mapM_cons, ← Program.entries,
        ← ih (number + 1)]
      cases Instruction.ofEntry registry (trim line) with
      | error cause => rfl
      | ok instr =>
        cases instructionsFrom registry (number + 1) lines with
        | error e => rfl
        | ok others => rfl

theorem instructionsFrom_number (h : instructionsFrom registry number lines = .ok found)
    (other : Nat) : instructionsFrom registry other lines = .ok found := by
  have hentries := instructionsFrom_mapError_cause registry number lines
  rw [← instructionsFrom_mapError_cause registry other lines] at hentries
  exact mapError_eq_ok_iff.mp (hentries.symm.trans (mapError_eq_ok_iff.mpr h))

/-- Each instruction that is read is one of a line. -/
theorem exists_entry_of_mem {instr : Instruction}
    (h : instructionsFrom registry number lines = .ok found) (hinstr : instr ∈ found) :
    ∃ entry, Instruction.ofEntry registry entry = .ok instr := by
  have hentries := instructionsFrom_mapError_cause registry number lines
  rw [h] at hentries
  obtain ⟨entry, -, hentry⟩ := exists_of_mem_of_mapM hentries.symm hinstr
  exact ⟨entry, hentry⟩

/-- A text without line breaks is read as the one line that it is. -/
theorem instructionsFrom_line_eq (hbreaks : ∀ c ∈ line, isLineBreak c = false)
    (h : instructionsFrom registry 1 (splitLines line) = .ok instrs) (number : Nat) :
    instructionsFrom registry number [line] = .ok instrs := by
  cases line with
  | nil => exact h
  | cons c behind =>
    rw [splitLines_of_not_lineBreak (by simp) hbreaks] at h
    exact instructionsFrom_number h number

/-! ## Lines together -/

theorem parse_eq_ok_iff {text : Text} {program : Program} :
    Program.parse registry text = .ok program ↔
      instructionsFrom registry 1 (splitLines text) = .ok program.instructions := by
  unfold Program.parse
  rw [map_eq_ok_iff]
  constructor
  · rintro ⟨instrs, hinstrs, rfl⟩
    exact hinstrs
  · intro h
    exact ⟨_, h, rfl⟩

variable {texts : List Text} {programs : List Program}

/-- Lines that are each read are read together, from any number on. -/
theorem instructionsFrom_joined (hbreaks : ∀ text ∈ texts, ∀ c ∈ text, isLineBreak c = false)
    (h : texts.mapM (Program.parse registry) = .ok programs) (number : Nat) :
    instructionsFrom registry number
        (splitLines (List.intercalate [.char '\n'] texts))
      = .ok (programs.flatMap Program.instructions) := by
  induction texts generalizing number programs with
  | nil =>
    cases h
    rfl
  | cons text texts ih =>
    rw [List.forall_mem_cons] at hbreaks
    obtain ⟨program, others, htext, htexts, rfl⟩ := mapM_cons_eq_ok.mp h
    rw [parse_eq_ok_iff] at htext
    cases texts with
    | nil =>
      -- the last line has no break behind it
      cases htexts
      simpa using instructionsFrom_number htext number
    | cons next texts =>
      have hline := instructionsFrom_line_eq hbreaks.1 htext number
      have hlines := ih hbreaks.2 htexts (number + 1)
      rw [List.intercalate_cons_cons, List.append_assoc, List.singleton_append,
        splitLines_append hbreaks.1, instructionsFrom_cons hline, hlines]
      rfl

/-- **Lines that are each read are read together**: their instructions follow one another. -/
theorem parse_joined (hbreaks : ∀ text ∈ texts, ∀ c ∈ text, isLineBreak c = false)
    (h : texts.mapM (Program.parse registry) = .ok programs) :
    Program.parse registry (List.intercalate [.char '\n'] texts)
      = .ok ⟨programs.flatMap Program.instructions⟩ :=
  parse_eq_ok_iff.mpr (instructionsFrom_joined hbreaks h 1)

end FlatCode
