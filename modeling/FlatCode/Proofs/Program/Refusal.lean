import FlatCode.Proofs.Block.Detection
import FlatCode.Proofs.Program.ArgumentGrammar
import FlatCode.Proofs.Program.DocumentText
import FlatCode.Proofs.Program.LineText

/-!
# Programs that are not written

A program is not written for one of two reasons. Its markers do not fit together, so there is no
depth to indent it by. Or a string is tried as a bare word, and the reader comes to an integer of
too many digits in it: it refuses the integer and does not back off, so it is not found out that
the string has to be quoted (`Arguments.refusal?`).

* `write_eq_error_iff` — an argument is not written exactly if it is refused
* `format_failure` — a program is not written exactly for one of the two reasons
* `digits_not_written` — a document of a well-formed program that is not written
-/

namespace FlatCode

open Json Text

namespace Arguments

/-! ## Arguments -/

/-- Why an argument is not written: it is a string that looks bare, and the reader refuses an
integer where it starts or in the list or the object that it starts. -/
def refusal? : Json → Option ArgumentError
  | .string word =>
    match looksBare word, readValue word with
    | true, .error (.tooManyDigits count) => some (.tooManyDigits count)
    | _, _ => none
  | _ => none

theorem refusal?_eq_some_iff {value : Json} {e : ArgumentError} :
    refusal? value = some e ↔ ∃ word count, value = .string word ∧ looksBare word = true ∧
      readValue word = .error (.tooManyDigits count) ∧ e = .tooManyDigits count := by
  constructor
  · intro h
    unfold refusal? at h
    split at h
    · next word =>
      split at h
      · next hlooks hread =>
        cases h
        exact ⟨word, _, rfl, hlooks, hread, rfl⟩
      · cases h
    · cases h
  · rintro ⟨word, count, rfl, hlooks, hread, rfl⟩
    rw [refusal?, hlooks, hread]

/-- A refused string has the digits that it is refused for. -/
theorem longRun_of_refusal? {word : Text} {e : ArgumentError}
    (h : refusal? (.string word) = some e) : LongRun word := by
  obtain ⟨_, count, hword, -, hread, -⟩ := refusal?_eq_some_iff.mp h
  cases hword
  exact longRun_of_readValue hread

variable {word : Text}

theorem read_of_tooManyDigits {count : Nat} (hlooks : looksBare word = true)
    (h : readValue word = .error (.tooManyDigits count)) :
    read word = .error (.tooManyDigits count) := by
  obtain ⟨c, behind, rfl, -, hvisible⟩ := exists_start_of_looksBare hlooks
  exact readFrom_cons_error (hvisible c List.mem_cons_self) (readArgument_of_tooManyDigits h)

/-- **A word that is not refused is read as one argument**: a value that ends where the word ends,
or else the word. -/
theorem exists_read_of_looksBare (hlooks : looksBare word = true)
    (h : ∀ count, readValue word ≠ .error (.tooManyDigits count)) :
    ∃ value, read word = .ok [value] := by
  obtain ⟨c, behind, heq, -, hvisible⟩ := exists_start_of_looksBare hlooks
  have hfirst : ∃ value, readArgument 0 word = .ok (value, []) := by
    cases htakes : takesJson word with
    | false =>
      have hbare := @readArgument_bare [] 0 word hlooks rfl (by rwa [List.append_nil])
      rw [List.append_nil] at hbare
      exact ⟨_, hbare⟩
    | true =>
      rcases readValue_of_takesJson hvisible htakes with ⟨value, hread⟩ | ⟨count, hread⟩
      · exact ⟨value, readArgument_of_readValue hread rfl⟩
      · exact absurd hread (h count)
  obtain ⟨value, hread⟩ := hfirst
  rw [heq] at hread ⊢
  exact ⟨value, read_single (hvisible c (by simp [heq])) hread⟩

/-- **An argument is not written exactly if it is refused.** -/
theorem write_eq_error_iff {value : Json} {e : ArgumentError} :
    write value = .error e ↔ refusal? value = some e := by
  rw [refusal?_eq_some_iff]
  constructor
  · intro h
    unfold write at h
    split at h
    · next word =>
      split at h
      · next hlooks =>
        by_cases hrefused : ∃ count, readValue word = .error (.tooManyDigits count)
        · obtain ⟨count, hread⟩ := hrefused
          rw [read_of_tooManyDigits hlooks hread] at h
          cases h
          exact ⟨word, count, rfl, hlooks, hread, rfl⟩
        · obtain ⟨read, hread⟩ := exists_read_of_looksBare hlooks (not_exists.mp hrefused)
          rw [hread] at h
          cases h
      · cases h
    · cases h
  · rintro ⟨word, count, rfl, hlooks, hread, rfl⟩
    rw [write, if_pos hlooks, read_of_tooManyDigits hlooks hread]

end Arguments

open Arguments

/-! ## Lists of arguments, and of instructions -/

namespace Program

/-- Why the arguments of a program are not written: the first refusal in the order of the text. -/
def refusal? (p : Program) : Option ArgumentError :=
  p.instructions.findSome? fun instr => instr.args.findSome? Arguments.refusal?

theorem formatLine_eq_error_iff (depth : Nat) (instr : Instruction) (e : ArgumentError) :
    formatLine depth instr = .error e ↔ instr.args.findSome? Arguments.refusal? = some e := by
  rw [← mapM_eq_error_iff fun _ _ => write_eq_error_iff, formatLine]
  cases instr.args.mapM Arguments.write with
  | error e' => simp [Except.map]
  | ok texts => exact ⟨nofun, nofun⟩

theorem formatLines_eq_error_iff {pairs : List (Nat × Instruction)} {p : Program}
    (h : pairs.map Prod.snd = p.instructions) (e : ArgumentError) :
    formatLines pairs = .error e ↔ p.refusal? = some e := by
  rw [refusal?, ← h, List.findSome?_map]
  exact mapM_eq_error_iff (fun pair => formatLine_eq_error_iff pair.1 pair.2) pairs e

/-- A refusal is one of a string that has the digits. -/
theorem exists_longRun_of_refusal? {p : Program} {e : ArgumentError} (h : p.refusal? = some e) :
    ∃ instr ∈ p.instructions, ∃ word, .string word ∈ instr.args ∧ LongRun word := by
  obtain ⟨instr, hinstr, h⟩ := List.exists_of_findSome?_eq_some h
  obtain ⟨arg, harg, h⟩ := List.exists_of_findSome?_eq_some h
  obtain ⟨word, -, rfl, -⟩ := refusal?_eq_some_iff.mp h
  exact ⟨instr, hinstr, word, harg, longRun_of_refusal? h⟩

/-! ## Programs -/

/-- What the walk over depths refuses is malformed. -/
theorem kind_of_depths {p : Program} {e : StructureError} (h : p.depths = .error e) :
    e.kind = .malformed := by
  have hsame := p.sameOutcome
  rw [h] at hsame
  generalize p.groups = groups at hsame
  cases hsame with
  | neverOpened n name => rfl
  | leftOpen head count => rfl

theorem isWellFormed_iff_depths {p : Program} :
    p.isWellFormed = true ↔ ∃ depths, p.depths = .ok depths :=
  Program.isWellFormed_iff_groups.trans p.sameOutcome.exists_ok_iff

theorem format_of_depths_error {p : Program} {e : StructureError} (h : p.depths = .error e) :
    p.format = .error (.structural e) := by
  rw [format, h]

theorem format_eq_error_iff_of_depths {p : Program} {depths : List Nat} {e : FormatError}
    (h : p.depths = .ok depths) :
    p.format = .error e ↔ ∃ cause, p.refusal? = some cause ∧ e = .argument cause := by
  have hlength : depths.length = p.size := length_depthsFrom h
  have hpairs : (depths.zip p.instructions).map Prod.snd = p.instructions :=
    List.map_snd_zip (Nat.le_of_eq hlength.symm)
  simp only [← formatLines_eq_error_iff hpairs, formatLines]
  rw [format, h]
  dsimp only
  split
  · next cause hlines => simp [hlines, eq_comm]
  · next lines hlines => simp [hlines]

end Program

/-- **Why a program is not written**: its markers do not fit together, and the error says so, or it
is well formed and an argument is refused, the first one in the order of the text. No string without
a long run of digits is refused, so of programs without such strings exactly the malformed ones are
not written. -/
theorem format_failure (p : Program) :
    (∀ e, p.format = .error e ↔
      (p.isWellFormed = false ∧
        ∃ fault, p.depths = .error fault ∧ fault.kind = .malformed ∧ e = .structural fault) ∨
      (p.isWellFormed = true ∧ ∃ cause, p.refusal? = some cause ∧ e = .argument cause)) ∧
    ((∀ instr ∈ p.instructions, ∀ word, .string word ∈ instr.args → ¬LongRun word) →
      ((∃ e, p.format = .error e) ↔ p.isWellFormed = false)) := by
  have hfailure : ∀ e, p.format = .error e ↔
      (p.isWellFormed = false ∧
        ∃ fault, p.depths = .error fault ∧ fault.kind = .malformed ∧ e = .structural fault) ∨
      (p.isWellFormed = true ∧ ∃ cause, p.refusal? = some cause ∧ e = .argument cause) := by
    intro e
    have hwell := p.isWellFormed_iff_depths
    cases hdepths : p.depths with
    | error fault =>
      have hfalse : p.isWellFormed = false := by simpa [hdepths] using hwell
      simp [hfalse, Program.format_of_depths_error hdepths, Program.kind_of_depths hdepths, eq_comm]
    | ok depths =>
      have htrue : p.isWellFormed = true := hwell.mpr ⟨depths, hdepths⟩
      simp [htrue, Program.format_eq_error_iff_of_depths hdepths]
  refine ⟨hfailure, fun hruns => ⟨?_, fun hmalformed => ?_⟩⟩
  · rintro ⟨e, he⟩
    rcases (hfailure e).mp he with ⟨hmalformed, -⟩ | ⟨-, cause, hcause, -⟩
    · exact hmalformed
    · obtain ⟨instr, hinstr, word, hword, hrun⟩ := Program.exists_longRun_of_refusal? hcause
      exact absurd hrun (hruns instr hinstr word hword)
  · cases hdepths : p.depths with
    | error fault => exact ⟨_, Program.format_of_depths_error hdepths⟩
    | ok depths =>
      rw [Program.isWellFormed_iff_depths.mpr ⟨depths, hdepths⟩] at hmalformed
      cases hmalformed

/-- A divider that stands in no group, and words that only start like a number or a list. -/
def strayWords : Program :=
  ⟨[⟨.ofSimple "LoadString", [.string "1abc", .string "[1", .string "01"]⟩,
    ⟨.ofDivider "BeginElse", []⟩]⟩

theorem format_failure_strayWords :
    strayWords.format = .error (.structural (.neverOpened 1 "BeginElse")) ∧
      ((∃ e, strayWords.format = .error e) ↔ strayWords.isWellFormed = false) := by
  have hshort : ∀ instr ∈ strayWords.instructions, ∀ word, .string word ∈ instr.args →
      word.length ≤ maxDigits := by
    simp [strayWords, maxDigits]
    decide
  refine ⟨((format_failure strayWords).1 _).mpr (.inl ⟨by decide, _, rfl, rfl, rfl⟩), ?_⟩
  exact (format_failure strayWords).2 fun instr hinstr word hword =>
    not_longRun_of_length (hshort instr hinstr word hword)

/-- A string of too many digits is refused. -/
theorem refusal?_replicate {n : Nat} (h : maxDigits < n) :
    refusal? (.string (Text.ofChars (List.replicate n '1'))) = some (.tooManyDigits n) := by
  have hne : n ≠ 0 := by omega
  have hwhole : IsWhole (List.replicate n '1') := by
    refine ⟨by simpa using hne, fun c hc => ?_, fun hhead => ?_⟩
    · rw [List.eq_of_mem_replicate hc]
      rfl
    · simp [List.head?_replicate, hne] at hhead
  have hread := @readValue_of_long [] false _ hwhole (by rwa [List.length_replicate]) rfl
  rw [List.append_nil, List.length_replicate] at hread
  have hlooks : looksBare (Text.ofChars (List.replicate n '1')) = true := by
    simp [looksBare, ofChars, List.head?_replicate, isBlank, hne]
  exact refusal?_eq_some_iff.mpr ⟨_, _, rfl, hlooks, hread, rfl⟩

/-- A string of digits as an argument. -/
def ones (n : Nat) : Program :=
  ⟨[⟨.ofSimple "LoadString", [.string (Text.ofChars (List.replicate n '1'))]⟩]⟩

/-- A program with a string of too many digits is read from its document and is not written. -/
theorem format_ones {n : Nat} (h : maxDigits < n) : (ones n).isWellFormed = true ∧
    (ones n).format = .error (.argument (.tooManyDigits n)) ∧
    ∃ document, Json.read (.ofChars (Json.write .spaced (ones n).toJson)) = .ok document ∧
      Program.ofJson .builtin document = .ok (ones n) := by
  have hop : Operation.ofSimple "LoadString" ∈ Operation.builtins := by decide +kernel
  have hlookup : ∀ instr ∈ (ones n).instructions,
      Registry.find? .builtin instr.name = some instr.operation :=
    List.forall_mem_singleton.mpr (find?_of_builtin (List.prefix_refl _) hop)
  obtain ⟨q, hq, -, -, hsame⟩ :=
    Program.exists_ofJson_toJson fun instr hinstr => ⟨_, hlookup instr hinstr⟩
  have hdepths : (ones n).depths = .ok [0] := rfl
  have hrefusal : (ones n).refusal? = some (.tooManyDigits n) := by
    simp [Program.refusal?, ones, refusal?_replicate h]
  refine ⟨Program.isWellFormed_iff_depths.mpr ⟨_, hdepths⟩,
    (Program.format_eq_error_iff_of_depths hdepths).mpr ⟨_, hrefusal, rfl⟩,
    (ones n).toJson, ?_, hsame hlookup ▸ hq⟩
  exact read_write Style.spaced_plain
    (Program.regular_toJson (by simp [ones, Instruction.name, Operation.ofSimple])
      (by simp [ones, Regular, unpaired_ofChars]))

/-- **Not every well-formed program is written**: the reader of bare words refuses a string of many
digits, and a document may hold one. -/
theorem digits_not_written : (ones 4301).isWellFormed = true ∧
    (ones 4301).format = .error (.argument (.tooManyDigits 4301)) ∧
    ∃ document, Json.read (.ofChars (Json.write .spaced (ones 4301).toJson)) = .ok document ∧
      Program.ofJson .builtin document = .ok (ones 4301) :=
  format_ones (by decide)

end FlatCode
