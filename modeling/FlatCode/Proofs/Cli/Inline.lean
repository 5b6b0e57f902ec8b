import FlatCode.Proofs.Cli.Values
import FlatCode.Proofs.Json.Decidable
import FlatCode.Proofs.Program.Joining
import FlatCode.Proofs.Program.LineText

/-!
# The lines of a program on the command line

Lines that are joined by semicolons should come apart again at those semicolons, and be read as they
are one by one. The splitter does not know where arguments start: it takes any quote for the start
of a string, also one in a bare word, in a name or in a comment. So it takes quotes that stand
outside the values of arguments (`Program.outsideValues`) to cut lines wrong.

* `passes_line` — a line without quotes and semicolons outside its values is left as it is
* `parse_splitInline` — when joined lines come apart, and that they are read then
* `stray_quote_swallows_line` — a quote in a bare word takes the line behind it along
-/

namespace FlatCode

open Text

/-! ## Text outside the values of arguments -/

namespace Arguments

/-- The text behind the JSON value, up to a blank or the end, that a text starts with. -/
def behindValue? (s : Text) : Option Text :=
  match Json.readValue s with
  | .ok (_, rest) => if atBoundary rest then some rest else none
  | .error _ => none

variable {s rest : Text}

theorem exists_value_of_behindValue? (h : behindValue? s = some rest) :
    ∃ value, Json.readValue s = .ok (value, rest) ∧ atBoundary rest = true := by
  unfold behindValue? at h
  split at h
  · next value behind hvalue =>
    split at h
    · next hboundary =>
      cases h
      exact ⟨value, hvalue, hboundary⟩
    · cases h
  · cases h

theorem length_behindValue? (h : behindValue? s = some rest) : rest.length < s.length := by
  obtain ⟨value, hvalue, -⟩ := exists_value_of_behindValue? h
  have h1 := Json.weight_readValue hvalue
  have h2 := Json.one_le_weight value
  omega

theorem length_dropWord {c : CodePoint} (hc : isBlank c = false) (s : Text) :
    ((c :: s).dropWhile (!isBlank ·)).length < (c :: s).length := by
  rw [List.dropWhile_cons_of_pos (by simp [hc])]
  exact Nat.lt_succ_of_le (List.dropWhile_sublist _).length_le

/-- The characters of a text of arguments that stand in none of its JSON values: its bare words. -/
def outsideValues (s : Text) : Text :=
  match s with
  | [] => []
  | c :: rest =>
    if _hc : isBlank c then outsideValues rest
    else
      match _h : behindValue? (c :: rest) with
      | some behind => outsideValues behind
      | none => firstWord (c :: rest) ++ outsideValues ((c :: rest).dropWhile (!isBlank ·))
termination_by s.length
decreasing_by
  · simp
  · exact length_behindValue? _h
  · exact length_dropWord (Bool.not_eq_true _ ▸ _hc) rest

end Arguments

/-- The characters of a line that stand in no JSON value of an argument: the name of the operation
and the bare words, or all of a line that is skipped. A semicolon or a quote that is not among them
stands in a value, and there in a string. -/
def Program.outsideValues (line : Text) : Text :=
  let entry := trim line
  if isSkipped entry then entry
  else firstWord entry ++ Arguments.outsideValues (afterWord entry)

namespace Cli

variable {s line : Text}

/-! ## Lines that the splitter passes -/

theorem passes_dropBlanks (s : Text) : Passes .outside s .outside (dropBlanks s) :=
  .dropKind rfl rfl s

theorem passes_arguments (h : ∀ c ∈ Arguments.outsideValues s, c ≠ .char ';' ∧ c ≠ .char '"') :
    Passes .outside s .outside [] := by
  fun_induction Arguments.outsideValues s with
  | case1 => exact .stop
  | case2 c rest hc ih =>
    obtain ⟨hcut, hquote⟩ := ne_of_kind rfl rfl hc
    exact (Passes.plain hcut hquote).trans (ih h)
  | case3 c rest hc behind hvalue ih =>
    obtain ⟨value, hread, -⟩ := Arguments.exists_value_of_behindValue? hvalue
    exact (passes_readValue hread).trans (ih h)
  | case4 c rest hc hvalue ih =>
    rw [List.forall_mem_append] at h
    exact (Passes.dropWhile h.1).trans (ih h.2)

theorem passes_dropBlanksEnd (h : Passes .outside (dropBlanksEnd s) .outside []) :
    Passes .outside s .outside [] := by
  have hs : s = dropBlanksEnd s ++ (s.reverse.takeWhile isBlank).reverse := by
    rw [dropBlanksEnd, ← List.reverse_append, List.takeWhile_append_dropWhile, List.reverse_reverse]
  have htail : ∀ c ∈ (s.reverse.takeWhile isBlank).reverse,
      c ≠ .char ';' ∧ c ≠ .char '"' := fun c hc =>
    ne_of_kind rfl rfl
      (List.all_eq_true.mp List.all_takeWhile c (List.mem_reverse.mp hc))
  rw [hs]
  exact (h.append _).trans (Passes.of_plain htail)

/-- **The splitter passes a line without semicolons and quotes outside its values.** -/
theorem passes_line (hsemicolon : (.char ';') ∉ Program.outsideValues line)
    (hquote : (.char '"') ∉ Program.outsideValues line) : Passes .outside line .outside [] := by
  have hplain : ∀ c ∈ Program.outsideValues line, c ≠ .char ';' ∧ c ≠ .char '"' := fun c hc =>
    ⟨fun heq => hsemicolon (heq ▸ hc), fun heq => hquote (heq ▸ hc)⟩
  refine (passes_dropBlanks line).trans (passes_dropBlanksEnd ?_)
  change Passes .outside (trim line) .outside []
  unfold Program.outsideValues at hplain
  dsimp only at hplain
  split at hplain
  · exact Passes.of_plain hplain
  · rw [List.forall_mem_append] at hplain
    exact (Passes.dropWhile hplain.1).trans
      ((passes_dropBlanks _).trans (passes_arguments hplain.2))

/-! ## Joined lines -/

theorem splitInline_joined_iff (lines : List Text) :
    splitInline (List.intercalate [.char ';'] lines) = List.intercalate [.char '\n'] lines ↔
      (∀ line ∈ lines, splitInline line = line) ∧
        ∀ line ∈ lines.dropLast, Quotation.outside.after line = .outside :=
  splitInlineFrom_joined_iff lines

/-- **When lines that are joined by semicolons come apart again**: exactly if the splitter cuts
none of them and quotes are closed at the end of each but the last. So they do if all their
semicolons and quotes stand in the values of arguments, and then they are read as they are one by
one. -/
theorem parse_splitInline {registry : Registry} {lines : List Text} {programs : List Program}
    (hbreaks : ∀ line ∈ lines, ∀ c ∈ line, isLineBreak c = false)
    (hprograms : lines.mapM (Program.parse registry) = .ok programs)
    (hsemicolons : ∀ line ∈ lines, .char ';' ∉ Program.outsideValues line) :
    (splitInline (List.intercalate [.char ';'] lines) = List.intercalate [.char '\n'] lines ↔
      (∀ line ∈ lines, splitInline line = line) ∧
        ∀ line ∈ lines.dropLast, Quotation.outside.after line = .outside) ∧
    ((∀ line ∈ lines, .char '"' ∉ Program.outsideValues line) →
      splitInline (List.intercalate [.char ';'] lines) = List.intercalate [.char '\n'] lines) ∧
    (splitInline (List.intercalate [.char ';'] lines) = List.intercalate [.char '\n'] lines →
      Program.parse registry (splitInline (List.intercalate [.char ';'] lines))
        = .ok ⟨programs.flatMap Program.instructions⟩) := by
  refine ⟨splitInline_joined_iff lines, fun hquotes => ?_, fun hsplit => ?_⟩
  · have hlines : ∀ line ∈ lines, splitInlineFrom .outside line = line ∧
        Quotation.outside.after line = .outside := fun line hline =>
      passes_nil_iff.mp (passes_line (hsemicolons line hline) (hquotes line hline))
    refine (splitInline_joined_iff lines).mpr ⟨fun line hline => ?_, fun line hline => ?_⟩
    · exact (hlines line hline).1
    · exact (hlines line (List.dropLast_subset _ hline)).2
  · rw [hsplit]
    exact parse_joined hbreaks hprograms

/-- No line break is found in lines that are checked character by character. -/
theorem not_lineBreak_of_all {lines : List Text}
    (h : ∀ line ∈ lines, line.any isLineBreak = false) :
    ∀ line ∈ lines, ∀ c ∈ line, isLineBreak c = false := fun line hline c hc =>
  Bool.eq_false_iff.mpr (List.any_eq_false.mp (h line hline) c hc)

/-- Lines with semicolons, an escaped quote and a backslash in strings. -/
def quotedLines : List Text :=
  ["LoadString \"a;b\" c", "  CallFunction [\"x\\\";y\", \x7b\";\": \"\\\\\"\x7d]", "LoadInteger 1"]

/-- The programs of `quotedLines`. -/
def quotedPrograms : List Program :=
  [⟨[⟨.ofSimple "LoadString", [.string "a;b", .string "c"]⟩]⟩,
    ⟨[⟨.ofSimple "CallFunction", [.array [.string "x\";y", .object [(";", .string "\\")]]]⟩]⟩,
    ⟨[⟨.ofSimple "LoadInteger", [.int 1]⟩]⟩]

theorem parse_splitInline_quoted :
    quotedLines.mapM (Program.parse .builtin) = .ok quotedPrograms ∧
    splitInline (List.intercalate [.char ';'] quotedLines)
      = List.intercalate [.char '\n'] quotedLines ∧
    Program.parse .builtin (splitInline (List.intercalate [.char ';'] quotedLines))
      = .ok ⟨quotedPrograms.flatMap Program.instructions⟩ := by
  have hbreaks : ∀ line ∈ quotedLines, ∀ c ∈ line, isLineBreak c = false :=
    not_lineBreak_of_all (by decide +kernel)
  have hprograms : quotedLines.mapM (Program.parse .builtin) = .ok quotedPrograms :=
    eq_ok_of_toOption (by decide +kernel)
  have hsemicolons : ∀ line ∈ quotedLines, .char ';' ∉ Program.outsideValues line := by
    decide +kernel
  have hquotes : ∀ line ∈ quotedLines, .char '"' ∉ Program.outsideValues line := by
    decide +kernel
  obtain ⟨-, hsplit, hparse⟩ := parse_splitInline hbreaks hprograms hsemicolons
  exact ⟨hprograms, hsplit hquotes, hparse (hsplit hquotes)⟩

/-- A line with a quote in a bare word, and a line behind it. -/
def strayLines : List Text := ["LoadString a\"b", "LoadInteger 1"]

/-- The programs of `strayLines`. -/
def strayPrograms : List Program :=
  [⟨[⟨.ofSimple "LoadString", [.string "a\"b"]⟩]⟩, ⟨[⟨.ofSimple "LoadInteger", [.int 1]⟩]⟩]

/-- **A quote in a bare word takes the line behind it along**: no semicolon stands outside a value,
and each line is read by itself, but joined they are one instruction. -/
theorem stray_quote_swallows_line :
    (∀ line ∈ strayLines, ∀ c ∈ line, isLineBreak c = false) ∧
    strayLines.mapM (Program.parse .builtin) = .ok strayPrograms ∧
    (∀ line ∈ strayLines, .char ';' ∉ Program.outsideValues line) ∧
    splitInline (List.intercalate [.char ';'] strayLines) = "LoadString a\"b;LoadInteger 1" ∧
    Program.parse .builtin (splitInline (List.intercalate [.char ';'] strayLines))
      = .ok ⟨[⟨.ofSimple "LoadString", [.string "a\"b;LoadInteger", .int 1]⟩]⟩ ∧
    Program.parse .builtin (splitInline (List.intercalate [.char ';'] strayLines))
      ≠ .ok ⟨strayPrograms.flatMap Program.instructions⟩ := by
  have hsplit : splitInline (List.intercalate [.char ';'] strayLines)
      = "LoadString a\"b;LoadInteger 1" := by
    decide +kernel
  have hparse : Program.parse .builtin "LoadString a\"b;LoadInteger 1"
      = .ok ⟨[⟨.ofSimple "LoadString", [.string "a\"b;LoadInteger", .int 1]⟩]⟩ :=
    eq_ok_of_toOption (by decide +kernel)
  have hprograms : strayLines.mapM (Program.parse .builtin) = .ok strayPrograms :=
    eq_ok_of_toOption (by decide +kernel)
  rw [hsplit]
  refine ⟨not_lineBreak_of_all (by decide +kernel), hprograms, by decide +kernel, rfl, hparse, ?_⟩
  · rw [hparse]
    simp [strayPrograms]

end Cli

end FlatCode
