import FlatCode.Block.Group
import FlatCode.Program.Source
import FlatCode.Proofs.Operation.Lookup
import FlatCode.Proofs.Program.ArgumentText
import FlatCode.Proofs.Results

/-!
# Programs on lines

A program is written with an instruction on each line: indentation, the name of the operation, and
the arguments. Reading cuts the text into the same lines, the indentation off, the name from the
arguments, and finds the operation by its name. So nothing can go wrong but in the arguments, and
there only a bare word that runs on (`Arguments.RunsOn`).

* `parse_format_iff` — a written program is read back exactly if no argument of it runs on
* `parse_format_of_no_bracket` — so it is if no string argument starts with a bracket or a brace
* `braces_not_read_back` — two braces are written bare and read as one object
-/

namespace FlatCode

open Arguments Json Text

/-! ## The characters of a line -/

/-- What a written argument leaves to its line: it starts and ends visibly, and its only blanks are
spaces. -/
theorem write_visible {arg : Json} {text : Text} (h : Arguments.write arg = .ok text)
    (hregular : NotBare arg → Regular arg) :
    StartsVisibly text ∧ EndsVisibly text ∧ ∀ c ∈ text, c = .char ' ' ∨ isBlank c = false := by
  rcases write_cases h with ⟨word, rfl, hbare, rfl⟩ | ⟨rfl, hnot⟩
  · obtain ⟨c, behind, heq, -, hblank⟩ := exists_start_of_looksBare hbare.1
    obtain ⟨hstart, hend⟩ := visible_ends (by simp [heq]) hblank
    exact ⟨hstart, hend, fun c hc => .inr (hblank c hc)⟩
  · refine ⟨startsVisibly_write Style.compact_plain (hregular hnot), endsVisibly_write _ _,
      fun d hd => ?_⟩
    obtain ⟨c, hc, rfl⟩ := mem_ofChars.mp hd
    -- JSON text is printable, so its only blank is the space
    have hprint := printable_of_mem_write Style.compact_oneLine arg c hc
    by_cases hspace : c = ' '
    · exact .inl (congrArg _ hspace)
    · refine .inr (IsVisible.not_blank ⟨?_, hprint.2⟩)
      have hlow := hprint.1
      have hne : c.toNat ≠ 0x20 := fun h => hspace (Char.toNat_inj.mp h)
      omega

/-- Whether a text can be the name on a line: a word that does not start a remark. -/
def IsName (name : Text) : Prop :=
  name ≠ [] ∧ name.head? ≠ some (.char '#') ∧ ∀ c ∈ name, isBlank c = false

instance (name : Text) : Decidable (IsName name) :=
  decidable_of_iff (name ≠ [] ∧ name.head? ≠ some (.char '#') ∧ name.any isBlank = false)
    (by simp [IsName])

theorem isName_of_builtin : ∀ op ∈ Operation.builtins, IsName op.name := by
  decide +kernel

/-- A text on a line: a name and the texts of arguments. -/
structure IsEntry (name : Text) (texts : List Text) : Prop where
  name : IsName name
  starts : ∀ text ∈ texts, StartsVisibly text
  ends : ∀ text ∈ texts, EndsVisibly text
  blanks : ∀ text ∈ texts, ∀ c ∈ text, c = .char ' ' ∨ isBlank c = false

theorem isEntry_of_mapM {name : Text} (hname : IsName name) {args : List Json}
    {texts : List Text} (h : args.mapM Arguments.write = .ok texts)
    (hregular : ∀ arg ∈ args, NotBare arg → Regular arg) : IsEntry name texts := by
  induction args generalizing texts with
  | nil =>
    cases h
    exact ⟨hname, by simp, by simp, by simp⟩
  | cons arg args ih =>
    obtain ⟨text, texts, hwrite, hbehind, rfl⟩ := mapM_cons_eq_ok.mp h
    obtain ⟨hstart, hend, hblank⟩ := write_visible hwrite (hregular arg List.mem_cons_self)
    have hrest := ih hbehind fun a ha => hregular a (List.mem_cons_of_mem _ ha)
    exact ⟨hname, List.forall_mem_cons.mpr ⟨hstart, hrest.starts⟩,
      List.forall_mem_cons.mpr ⟨hend, hrest.ends⟩, List.forall_mem_cons.mpr ⟨hblank, hrest.blanks⟩⟩

variable {name : Text} {texts : List Text}

namespace IsEntry

theorem startsVisibly (h : IsEntry name texts) : StartsVisibly (joined (name :: texts)) := by
  rw [joined_cons]
  exact (visible_ends h.name.1 h.name.2.2).1.append _

theorem endsVisibly (h : IsEntry name texts) : EndsVisibly (joined (name :: texts)) := by
  rw [joined_cons]
  rcases List.eq_nil_or_concat texts with rfl | ⟨front, text, rfl⟩
  · simpa [spaced] using (visible_ends h.name.1 h.name.2.2).2
  · rw [spaced, List.concat_eq_append, List.flatMap_append, List.flatMap_singleton]
    exact (((h.ends text (by simp)).append [.char ' ']).append _).append _

/-- An entry is one line. -/
theorem not_lineBreak (h : IsEntry name texts) :
    ∀ c ∈ joined (name :: texts), isLineBreak c = false := by
  intro c hc
  refine not_lineBreak_of_not_blank ?_
  rw [joined_cons, spaced] at hc
  rcases List.mem_append.mp hc with hc | hc
  · exact .inr (h.name.2.2 c hc)
  · obtain ⟨text, htext, hc⟩ := List.mem_flatMap.mp hc
    rcases List.mem_cons.mp hc with rfl | hc
    · exact .inl rfl
    · exact h.blanks text htext c hc

theorem not_skipped (h : IsEntry name texts) : isSkipped (joined (name :: texts)) = false := by
  obtain ⟨hne, hhash, -⟩ := h.name
  rw [joined_cons]
  cases name with
  | nil => exact absurd rfl hne
  | cons c name =>
    rw [List.cons_append, isSkipped, beq_eq_false_iff_ne]
    rintro rfl
    exact hhash rfl

/-- The name is the first word, the arguments are behind it. -/
theorem words (h : IsEntry name texts) : firstWord (joined (name :: texts)) = name ∧
    afterWord (joined (name :: texts)) = joined texts := by
  obtain ⟨hfirst, hdrop⟩ := firstWord_append h.name.2.2 (atBoundary_spaced texts)
  rw [joined_cons]
  refine ⟨hfirst, ?_⟩
  rw [afterWord, hdrop]
  cases htexts : texts with
  | nil => rfl
  | cons text behind =>
    have hstart := h.starts text (by simp [htexts])
    rw [spaced, List.flatMap_cons, List.cons_append, dropBlanks,
      List.dropWhile_cons_of_pos (by decide), joined_cons]
    exact dropBlanks_of_starts (hstart.append _)

end IsEntry

/-! ## Reading a line -/

/-- The operation is found by its name, and the arguments are read. -/
theorem ofEntry_joined {registry : Registry} {op : Operation}
    (hfind : registry.find? op.name = some op) (h : IsEntry op.name texts) :
    Instruction.ofEntry registry (joined (op.name :: texts))
      = match readFrom 0 (joined texts) with
        | .error e => .error (.argument e)
        | .ok args => .ok ⟨op, args⟩ := by
  obtain ⟨hfirst, hafter⟩ := h.words
  unfold Instruction.ofEntry
  rw [hafter, hfirst, Arguments.read]
  cases readFrom 0 (joined texts) with
  | error e => rfl
  | ok args =>
    simp only [Instruction.ofName, Registry.lookup, hfind]
    rfl

theorem instructionsFrom_entry {registry : Registry} (number depth : Nat)
    (h : IsEntry name texts) (lines : List Text) :
    instructionsFrom registry number
        ((Program.indentation depth ++ joined (name :: texts)) :: lines)
      = match Instruction.ofEntry registry (joined (name :: texts)) with
        | .error cause => .error ⟨number, cause⟩
        | .ok instr => (instructionsFrom registry (number + 1) lines).map (instr :: ·) := by
  have htrim : trim (Program.indentation depth ++ joined (name :: texts))
      = joined (name :: texts) :=
    trim_of_ends h.startsVisibly h.endsVisibly _
  rw [instructionsFrom]
  simp only [htrim, h.not_skipped]
  rfl

/-! ## Reading a program -/

/-- Whether an instruction can be written on a line that a registry reads. -/
structure Writable (registry : Registry) (instr : Instruction) : Prop where
  known : registry.find? instr.name = some instr.operation
  name : IsName instr.name
  regular : ∀ arg ∈ instr.args, NotBare arg → Regular arg

theorem exists_texts_of_formatLine {depth : Nat} {instr : Instruction} {line : Text}
    (h : Program.formatLine depth instr = .ok line) :
    ∃ texts, instr.args.mapM Arguments.write = .ok texts ∧
      line = Program.indentation depth ++ joined (instr.name :: texts) := by
  obtain ⟨texts, htexts, rfl⟩ := map_eq_ok_iff.mp h
  exact ⟨texts, htexts, rfl⟩

/-- Instructions at their depths, written on lines. -/
def formatLines (pairs : List (Nat × Instruction)) : Except ArgumentError (List Text) :=
  pairs.mapM fun (depth, instr) => Program.formatLine depth instr

variable {registry : Registry} {pairs : List (Nat × Instruction)} {lines : List Text}

/-- The first instruction is on the first line. -/
theorem exists_line_of_formatLines {pair : Nat × Instruction}
    (h : formatLines (pair :: pairs) = .ok lines) (hwritable : Writable registry pair.2) :
    ∃ texts behind, pair.2.args.mapM Arguments.write = .ok texts ∧
      formatLines pairs = .ok behind ∧ IsEntry pair.2.name texts ∧
      lines = (Program.indentation pair.1 ++ joined (pair.2.name :: texts)) :: behind := by
  obtain ⟨line, behind, hline, hbehind, rfl⟩ := mapM_cons_eq_ok.mp h
  obtain ⟨texts, htexts, rfl⟩ := exists_texts_of_formatLine hline
  exact ⟨texts, behind, htexts, hbehind,
    isEntry_of_mapM hwritable.name htexts hwritable.regular, rfl⟩

/-- What is written on a line has no line break. -/
theorem not_lineBreak_of_formatLines (h : formatLines pairs = .ok lines)
    (hwritable : ∀ pair ∈ pairs, Writable registry pair.2) :
    ∀ line ∈ lines, ∀ c ∈ line, isLineBreak c = false := by
  induction pairs generalizing lines with
  | nil =>
    cases h
    simp
  | cons pair pairs ih =>
    obtain ⟨texts, behind, -, hbehind, hentry, rfl⟩ :=
      exists_line_of_formatLines h (hwritable pair List.mem_cons_self)
    refine List.forall_mem_cons.mpr ⟨fun c hc => ?_,
      ih hbehind fun p hp => hwritable p (List.mem_cons_of_mem _ hp)⟩
    rcases List.mem_append.mp hc with hc | hc
    · rw [List.eq_of_mem_replicate hc]
      decide
    · exact hentry.not_lineBreak c hc

/-- The first line is read by its arguments. -/
theorem instructionsFrom_line {instr : Instruction} {texts : List Text} (number depth : Nat)
    (hwritable : Writable registry instr) (hentry : IsEntry instr.name texts)
    (lines : List Text) :
    instructionsFrom registry number
        ((Program.indentation depth ++ joined (instr.name :: texts)) :: lines)
      = match readFrom 0 (joined texts) with
        | .error e => .error ⟨number, .argument e⟩
        | .ok args =>
          (instructionsFrom registry (number + 1) lines).map (⟨instr.operation, args⟩ :: ·) := by
  rw [instructionsFrom_entry number depth hentry, Instruction.name,
    ofEntry_joined hwritable.known hentry]
  cases readFrom 0 (joined texts) with
  | error e => rfl
  | ok args => rfl

/-- Lines without run-on words are read back. -/
theorem instructionsFrom_of_keepApart (number : Nat) (h : formatLines pairs = .ok lines)
    (hwritable : ∀ pair ∈ pairs, Writable registry pair.2)
    (hapart : ∀ pair ∈ pairs, KeepApart pair.2.args) :
    instructionsFrom registry number lines = .ok (pairs.map Prod.snd) := by
  induction pairs generalizing lines number with
  | nil =>
    cases h
    rfl
  | cons pair pairs ih =>
    obtain ⟨hfirst, hrest⟩ := List.forall_mem_cons.mp hwritable
    obtain ⟨hkeep, hkeeps⟩ := List.forall_mem_cons.mp hapart
    obtain ⟨texts, behind, htexts, hbehind, hentry, rfl⟩ := exists_line_of_formatLines h hfirst
    rw [instructionsFrom_line number pair.1 hfirst hentry,
      (readFrom_joined_iff 0 htexts hfirst.regular).mpr hkeep]
    simp only [ih (number + 1) hbehind hrest hkeeps]
    rfl

/-- Where lines are read back with the same arguments, no word runs on. -/
theorem keepApart_of_instructionsFrom {number : Nat} {found : List Instruction}
    (h : formatLines pairs = .ok lines) (hwritable : ∀ pair ∈ pairs, Writable registry pair.2)
    (hread : instructionsFrom registry number lines = .ok found)
    (hargs : found.map Instruction.args = pairs.map fun pair => pair.2.args) :
    ∀ pair ∈ pairs, KeepApart pair.2.args := by
  induction pairs generalizing lines number found with
  | nil => simp
  | cons pair pairs ih =>
    obtain ⟨hfirst, hrest⟩ := List.forall_mem_cons.mp hwritable
    obtain ⟨texts, behind, htexts, hbehind, hentry, rfl⟩ := exists_line_of_formatLines h hfirst
    rw [instructionsFrom_line number pair.1 hfirst hentry] at hread
    cases hline : readFrom 0 (joined texts) with
    | error e =>
      rw [hline] at hread
      cases hread
    | ok args =>
      rw [hline] at hread
      cases hlines : instructionsFrom registry (number + 1) behind with
      | error e =>
        simp only [hlines] at hread
        cases hread
      | ok others =>
        simp only [hlines] at hread
        cases hread
        obtain ⟨rfl, hothers⟩ := List.cons.inj hargs
        exact List.forall_mem_cons.mpr ⟨(readFrom_joined_iff 0 htexts hfirst.regular).mp hline,
          ih hbehind hrest hlines hothers⟩

/-! ## Reading what is written -/

theorem length_depthsFrom {idx depth : Nat} {instrs : List Instruction} {depths : List Nat}
    (h : depthsFrom idx depth instrs = .ok depths) : depths.length = instrs.length := by
  induction instrs generalizing idx depth depths with
  | nil =>
    cases depth with
    | zero =>
      cases h
      rfl
    | succ depth => cases h
  | cons instr instrs ih =>
    rw [depthsFrom] at h
    split at h
    · cases h
    · dsimp only at h
      generalize hrest : depthsFrom _ _ instrs = rest at h
      cases rest with
      | error e => cases h
      | ok levels =>
        cases h
        rw [List.length_cons, List.length_cons, ih hrest]

/-- A program is written line by line. -/
theorem format_of_formatLines {p : Program} {depths : List Nat} (hdepths : p.depths = .ok depths)
    (h : formatLines (depths.zip p.instructions) = .ok lines) :
    p.format = .ok (lines.flatMap fun line => line ++ [.char '\n']) := by
  unfold formatLines at h
  rw [Program.format, hdepths]
  simp only [h]

/-- A written program is lines of its instructions at some depths. -/
theorem exists_lines_of_format {p : Program} {text : Text} (h : p.format = .ok text) :
    ∃ pairs lines, pairs.map Prod.snd = p.instructions ∧ formatLines pairs = .ok lines ∧
      text = lines.flatMap fun line => line ++ [.char '\n'] := by
  unfold Program.format at h
  split at h
  · cases h
  · next depths hdepths =>
    split at h
    · cases h
    · next lines hlines =>
      cases h
      refine ⟨depths.zip p.instructions, lines, ?_, hlines, rfl⟩
      exact List.map_snd_zip (Nat.le_of_eq (length_depthsFrom hdepths).symm)

/-- A written program is read from the lines it was made of. -/
theorem exists_lines_of_parse {p : Program} {text : Text}
    (hwritable : ∀ instr ∈ p.instructions, Writable registry instr) (h : p.format = .ok text) :
    ∃ pairs lines, pairs.map Prod.snd = p.instructions ∧ formatLines pairs = .ok lines ∧
      (∀ pair ∈ pairs, Writable registry pair.2) ∧
      Program.parse registry text = (instructionsFrom registry 1 lines).map Program.mk := by
  obtain ⟨pairs, lines, hpairs, hlines, htext⟩ := exists_lines_of_format h
  rw [← hpairs, List.forall_mem_map] at hwritable
  -- no line has a break in it, so the text is cut into the lines it was made of
  have hcut : splitLines text = lines := by
    rw [htext]
    exact splitLines_flatMap (not_lineBreak_of_formatLines hlines hwritable)
  exact ⟨pairs, lines, hpairs, hlines, hwritable, by rw [Program.parse, hcut]⟩

/-- **A written program is read back where none of its arguments runs on.** -/
theorem parse_format_of_keepApart {p : Program} {text : Text}
    (hwritable : ∀ instr ∈ p.instructions, Writable registry instr) (h : p.format = .ok text)
    (hapart : ∀ instr ∈ p.instructions, KeepApart instr.args) :
    Program.parse registry text = .ok p := by
  obtain ⟨pairs, lines, hpairs, hlines, hpairsWritable, hparse⟩ := exists_lines_of_parse hwritable h
  rw [← hpairs, List.forall_mem_map] at hapart
  rw [hparse, instructionsFrom_of_keepApart 1 hlines hpairsWritable hapart, hpairs]
  rfl

/-- **A written program is read back exactly if none of its arguments runs on.** -/
theorem parse_format_of_writable {p : Program} {text : Text}
    (hwritable : ∀ instr ∈ p.instructions, Writable registry instr) (h : p.format = .ok text) :
    (∃ q, Program.parse registry text = .ok q ∧ q.names = p.names ∧
      q.instructions.map Instruction.args = p.instructions.map Instruction.args) ↔
    ∀ instr ∈ p.instructions, KeepApart instr.args := by
  constructor
  · rintro ⟨q, hread, -, hargs⟩
    obtain ⟨pairs, lines, hpairs, hlines, hpairsWritable, hparse⟩ :=
      exists_lines_of_parse hwritable h
    rw [hparse] at hread
    rw [← hpairs] at hargs ⊢
    rw [List.forall_mem_map]
    obtain ⟨found, hfound, rfl⟩ := map_eq_ok_iff.mp hread
    rw [List.map_map] at hargs
    exact keepApart_of_instructionsFrom hlines hpairsWritable hfound hargs
  · intro hapart
    exact ⟨p, parse_format_of_keepApart hwritable h hapart, rfl, rfl⟩

/-- **A program over the built-in operations that is written on lines is read back exactly if none
of its arguments runs on.** Only what is written as JSON has to be regular. -/
theorem parse_format_iff {p : Program} {text : Text}
    (hregistry : Operation.builtins <+: registry.entries)
    (hbuiltin : ∀ instr ∈ p.instructions, instr.operation ∈ Operation.builtins)
    (hregular : ∀ instr ∈ p.instructions, ∀ arg ∈ instr.args, NotBare arg → Regular arg)
    (h : p.format = .ok text) :
    (∃ q, Program.parse registry text = .ok q ∧ q.names = p.names ∧
      q.instructions.map Instruction.args = p.instructions.map Instruction.args) ↔
    ∀ instr ∈ p.instructions, KeepApart instr.args := by
  refine parse_format_of_writable (fun instr hinstr => ?_) h
  have hop := hbuiltin instr hinstr
  exact ⟨find?_of_builtin hregistry hop, isName_of_builtin _ hop, hregular instr hinstr⟩

/-- **Without a bracket or a brace in front of a string, a program is read back.** -/
theorem parse_format_of_no_bracket {p : Program} {text : Text}
    (hwritable : ∀ instr ∈ p.instructions, Writable registry instr) (h : p.format = .ok text)
    (hstrings : ∀ instr ∈ p.instructions, ∀ word, .string word ∈ instr.args →
      word.head? ≠ some (.char '[') ∧ word.head? ≠ some (.char '\x7b')) :
    ∃ q, Program.parse registry text = .ok q ∧ q.names = p.names ∧
      q.instructions.map Instruction.args = p.instructions.map Instruction.args :=
  (parse_format_of_writable hwritable h).mpr fun instr hinstr =>
    keepApart_of_no_bracket (hstrings instr hinstr)

/-- A branch with strings that are written bare and as JSON, numbers, a list and an object. -/
def branch : Program :=
  ⟨[⟨.ofBegin "BeginIf", []⟩,
    ⟨.ofSimple "CallFunction", [.string "f", .array [.int 1, .int (-2)],
      .object [("key", .string "a b"), ("n", .array [.null, .float (.ofDecimal false 15 (-1))])]]⟩,
    ⟨.ofDivider "BeginElse", []⟩,
    ⟨.ofSimple "LoadString", [.string "say \"hi\"", .string "42", .string "[1", .string "x;y"]⟩,
    ⟨.ofEnd "EndIf", []⟩]⟩

/-- The text of `branch`. -/
def branchText : Text :=
  "BeginIf\n    CallFunction f [1,-2] \x7b\"key\":\"a b\",\"n\":[null,1.5]\x7d\nBeginElse\n"
    ++ "    LoadString \"say \\\"hi\\\"\" \"42\" [1 x;y\nEndIf\n"

theorem parse_format_branch : branch.format = .ok branchText ∧
    ∃ q, Program.parse .builtin branchText = .ok q ∧ q.names = branch.names ∧
      q.instructions.map Instruction.args = branch.instructions.map Instruction.args := by
  have hformat : branch.format = .ok branchText := eq_ok_of_toOption (by decide +kernel)
  refine ⟨hformat, (parse_format_iff ⟨[], rfl⟩ ?_ ?_ hformat).mpr (by decide +kernel)⟩
  · decide
  · have hregular : ∀ instr ∈ branch.instructions, ∀ arg ∈ instr.args, Regular arg := by
      simp [branch, Regular, RegularItems, RegularFields]
      decide
    exact fun instr hinstr arg harg _ => hregular instr hinstr arg harg

/-- Two braces as arguments of one instruction. -/
def braces : Program := ⟨[⟨.ofSimple "LoadString", [.string "\x7b", .string "\x7d"]⟩]⟩

/-- **Not every program is read back**: two braces are written bare, and read as one object. -/
theorem braces_not_read_back : braces.isWellFormed = true ∧
    braces.format = .ok "LoadString \x7b \x7d\n" ∧
    Program.parse .builtin "LoadString \x7b \x7d\n"
      = .ok ⟨[⟨.ofSimple "LoadString", [.object []]⟩]⟩ := by
  refine ⟨by decide +kernel, eq_ok_of_toOption (by decide +kernel), ?_⟩
  have hop : Operation.ofSimple "LoadString" ∈ Operation.builtins := by decide +kernel
  have hwritable : Writable .builtin
      ⟨.ofSimple "LoadString", [.string "\x7b", .string "\x7d"]⟩ :=
    ⟨find?_of_builtin (List.prefix_refl _) hop, isName_of_builtin _ hop, by simp [Regular]⟩
  have htexts : [Json.string "\x7b", .string "\x7d"].mapM Arguments.write
      = .ok [[.char '\x7b'], [.char '\x7d']] := eq_ok_of_toOption (by decide +kernel)
  have hargs : readFrom 0 (joined [[.char '\x7b'], [.char '\x7d']]) = .ok [.object []] := by
    have hfirst : readArgument 0 [.char '\x7b', .char ' ', .char '\x7d'] = .ok (.object [], []) :=
      rfl
    obtain ⟨next, hfrom⟩ := readFrom_cons rfl hfirst
    rw [readFrom_nil] at hfrom
    exact hfrom
  have hlines : splitLines "LoadString \x7b \x7d\n"
      = [Program.indentation 0
        ++ joined (Text.ofString "LoadString" :: [[.char '\x7b'], [.char '\x7d']])] := by
    decide +kernel
  have hread := instructionsFrom_line 1 0 hwritable
    (isEntry_of_mapM hwritable.name htexts hwritable.regular) []
  rw [hargs] at hread
  unfold Program.parse
  rw [hlines]
  exact congrArg (Except.map Program.mk) hread

end FlatCode
