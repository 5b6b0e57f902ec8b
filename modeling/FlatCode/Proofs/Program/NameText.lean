import FlatCode.Proofs.Block.Likeness
import FlatCode.Proofs.Json.Decidable
import FlatCode.Proofs.Operation.Stopping
import FlatCode.Proofs.Program.Joining
import FlatCode.Proofs.Program.LineText

/-!
# Names on lines

A name that is declared starts with a letter and has no blanks at its ends, but it may have some
inside. On a line the name is over at the first blank. So an operation that has just been registered
can be written, and is read back exactly if there is no blank in its name; what stands behind the
blank would be read as an argument.

* `Program.not_blank_of_parse` — no blank is in a name that is read
* `Declaration.Single` — the ways to declare one operation
* `parse_format_single` — an instruction of a new operation is read back if its name has no blank
* `blank_in_name` — a name with a blank is accepted, written, and not found when it is read
-/

namespace FlatCode

open Json Text

/-! ## Names that are read -/

variable {registry : Registry} {op : Operation}

theorem not_blank_of_mem_firstWord {c : CodePoint} {s : Text} (h : c ∈ firstWord s) :
    isBlank c = false := by
  have hvisible := List.all_eq_true.mp List.all_takeWhile c h
  simpa using hvisible

/-- The name of an instruction on a line is the first word of the line. -/
theorem Instruction.name_of_ofEntry {entry : Text} {instr : Instruction}
    (h : Instruction.ofEntry registry entry = .ok instr) :
    instr.name = firstWord entry := by
  unfold Instruction.ofEntry Instruction.ofName at h
  split at h
  · cases h
  · obtain ⟨operation, hlookup, rfl⟩ := map_eq_ok_iff.mp (mapError_eq_ok_iff.mp h)
    exact Registry.name_of_lookup hlookup

/-- **No blank is in a name that is read**, whatever operations are registered. -/
theorem Program.not_blank_of_parse {text : Text} {q : Program}
    (h : Program.parse registry text = .ok q) :
    ∀ instr ∈ q.instructions, ∀ c ∈ instr.name, isBlank c = false := by
  intro instr hinstr c hc
  obtain ⟨entry, hentry⟩ := exists_entry_of_mem (parse_eq_ok_iff.mp h) hinstr
  rw [Instruction.name_of_ofEntry hentry] at hc
  exact not_blank_of_mem_firstWord hc

/-! ## Declarations of one operation -/

/-- The ways to declare one operation: as it is, by an object, or by a JSON text of an object. -/
inductive Declaration.Single (op : Operation) : Declaration → Prop where
  | operation (h : op.Declared) : Single op (.operation op)
  | object {fields : List (Text × Json)} (h : Operation.ofFields fields = .ok op)
      (hone : ∀ items, Json.field? "operations" fields ≠ some (.array items)) :
      Single op (.value (.object fields))
  | text {fields : List (Text × Json)} {text : Text}
      (hstarts : startsJson (trim text) = true)
      (hread : Json.read (trim text) = .ok (.object fields))
      (h : Operation.ofFields fields = .ok op)
      (hone : ∀ items, Json.field? "operations" fields ≠ some (.array items)) :
      Single op (.value (.string text))

theorem operationsOfJson_object {fields : List (Text × Json)}
    (h : Operation.ofFields fields = .ok op)
    (hone : ∀ items, Json.field? "operations" fields ≠ some (.array items)) :
    operationsOfJson (.object fields) = .ok [op] := by
  rw [operationsOfJson]
  split
  · next items hitems => exact absurd hitems (hone items)
  · rw [h]
    rfl

namespace Declaration.Single

variable {declaration : Declaration}

theorem operations (h : Single op declaration) : declaration.operations = .ok [op] := by
  cases h with
  | operation => rw [Declaration.operations]
  | object hop hone =>
    rw [Declaration.operations]
    exact operationsOfJson_object hop hone
  | text hstarts hread hop hone =>
    rw [Declaration.operations, operationsOfJson, if_pos hstarts]
    split
    · next herror =>
      rw [hread] at herror
      cases herror
    · next hdecoded =>
      rw [hread] at hdecoded
      cases hdecoded
      exact operationsOfJson_object hop hone

theorem wellNamed (h : Single op declaration) : op.WellNamed := by
  have hdeclared : declaration.Declared := by
    cases h with
    | operation h => rwa [Declaration.Declared]
    | object => rw [Declaration.Declared]; trivial
    | text => rw [Declaration.Declared]; trivial
  exact wellNamed_operations hdeclared [op] h.operations op List.mem_cons_self

/-- A declared operation comes to the end of the registry. -/
theorem register (h : Single op declaration) (hnew : registry.find? op.name = none) :
    registry.register declaration false = (.ok (), registry.push op) := by
  unfold Registry.register
  rw [h.operations]
  exact Registry.add_cons_of_free hnew []

end Declaration.Single

/-! ## An instruction of a new operation -/

theorem find?_push_self (hnew : registry.find? op.name = none) :
    (registry.push op).find? op.name = some op := by
  rw [Registry.find?] at hnew
  rw [Registry.find?, Registry.push, List.find?_append, hnew]
  simp

/-- A letter starts no remark. -/
theorem Operation.WellNamed.isName (h : op.WellNamed)
    (hvisible : ∀ c ∈ op.name, isBlank c = false) : IsName op.name := by
  obtain ⟨hletter, -⟩ := h
  cases hname : op.name with
  | nil =>
    rw [hname] at hletter
    cases hletter
  | cons c name =>
    rw [hname] at hletter hvisible
    refine ⟨List.cons_ne_nil c name, ?_, hvisible⟩
    rintro hhash
    cases hhash
    rw [List.head?_cons, Option.any_some] at hletter
    exact absurd hletter (by decide +kernel)

/-- A program of one instruction without arguments. -/
def Program.single (op : Operation) : Program := ⟨[⟨op, []⟩]⟩

theorem Program.formatLine_single (op : Operation) :
    formatLine 0 ⟨op, []⟩ = .ok op.name := by
  change Except.ok (indentation 0 ++ List.intercalate [.char ' '] [op.name]) = _
  simp [indentation]

/-- The text is a line with the name. -/
theorem Program.format_single (hplain : op.marker = .plain) :
    (Program.single op).format = .ok (op.name ++ [.char '\n']) := by
  have hdepths : (Program.single op).depths = .ok [0] := by
    rw [Program.depths, single]
    simp only [depthsFrom, Instruction.marker, hplain]
    rfl
  have hlines : formatLines [(0, ⟨op, []⟩)] = .ok [op.name] :=
    mapM_cons_eq_ok.mpr ⟨_, _, formatLine_single op, rfl, rfl⟩
  rw [format_of_formatLines hdepths hlines, List.flatMap_singleton]

/-- A program that counts as the same has an instruction with the name. -/
theorem Program.exists_name_of_same_single {q : Program}
    (h : q.same (Program.single op) = true) :
    ∃ instr ∈ q.instructions, instr.name = op.name := by
  have hmem : op.name ∈ q.names := by
    rw [names_of_same h]
    exact List.mem_cons_self
  exact List.mem_map.mp hmem

/-- **An instruction of a new operation is read back exactly if there is no blank in its name.** In
each of the ways in which one operation is declared it is registered, and a program of one
instruction of it is written; it is the program itself that is read back. -/
theorem parse_format_single {declaration : Declaration} (hdeclared : declaration.Single op)
    (hplain : op.marker = .plain) (hnew : registry.find? op.name = none) :
    registry.register declaration false = (.ok (), registry.push op) ∧
    ∃ text, (Program.single op).format = .ok text ∧
      ((∀ c ∈ op.name, isBlank c = false) →
        Program.parse (registry.push op) text = .ok (Program.single op)) ∧
      ((∃ q, Program.parse (registry.push op) text = .ok q ∧ q.same (Program.single op) = true) →
        ∀ c ∈ op.name, isBlank c = false) := by
  refine ⟨hdeclared.register hnew, _, Program.format_single hplain, fun hvisible => ?_, ?_⟩
  · refine parse_format_of_keepApart ?_ (Program.format_single hplain) ?_
    · exact List.forall_mem_singleton.mpr
        ⟨find?_push_self hnew, hdeclared.wellNamed.isName hvisible, by simp⟩
    · exact List.forall_mem_singleton.mpr trivial
  · rintro ⟨q, hread, hsame⟩
    obtain ⟨instr, hinstr, hname⟩ := Program.exists_name_of_same_single hsame
    exact hname ▸ Program.not_blank_of_parse hread instr hinstr

/-- A JSON text that declares an operation, with blanks around the text and around the name. -/
def declaredText : Declaration :=
  .value (.string " \x7b\"name\": \" Gr\\u00f6ße\\t\", \"simple\": true\x7d\n")

theorem parse_format_single_text :
    Registry.register .builtin declaredText false
      = (.ok (), Registry.builtin.push (.ofSimple "Größe")) ∧
    ∃ text, (Program.single (.ofSimple "Größe")).format = .ok text ∧
      Program.parse (Registry.builtin.push (.ofSimple "Größe")) text
        = .ok (Program.single (.ofSimple "Größe")) := by
  have hread : Json.read
      (trim " \x7b\"name\": \" Gr\\u00f6ße\\t\", \"simple\": true\x7d\n")
        = .ok (.object [("name", .string " Größe\t"), ("simple", .bool true)]) :=
    eq_ok_of_toOption (by decide +kernel)
  have hdeclared : declaredText.Single (.ofSimple "Größe") :=
    .text (by decide +kernel) hread (eq_ok_of_toOption (by decide +kernel)) (by simp [field?])
  have hnew : Registry.find? .builtin "Größe" = none := by decide +kernel
  obtain ⟨hregister, text, hformat, hparse, -⟩ := parse_format_single hdeclared rfl hnew
  have hvisible : (Text.ofString "Größe").any isBlank = false := by decide +kernel
  exact ⟨hregister, text, hformat, hparse fun c hc =>
    Bool.eq_false_iff.mpr (List.any_eq_false.mp hvisible c hc)⟩

/-- **Not every name is read back**: one with a blank inside is accepted and written, and where it
is read the operation is looked up by its first word. -/
theorem blank_in_name :
    let op := Operation.ofSimple "Load Global"
    Registry.register .builtin
        (.value (.object [("name", .string "Load Global"), ("simple", .bool true)])) false
      = (.ok (), Registry.builtin.push op) ∧
    (Program.single op).format = .ok "Load Global\n" ∧
    Program.parse (Registry.builtin.push op) "Load Global\n"
      = .error ⟨1, .operation (.unknown "Load")⟩ := by
  intro op
  have hdeclared : Declaration.Single op
      (.value (.object [("name", .string "Load Global"), ("simple", .bool true)])) :=
    .object (eq_ok_of_toOption (by decide +kernel)) (by simp [field?])
  have hformat : (Program.single op).format = .ok (op.name ++ [.char '\n']) :=
    Program.format_single rfl
  have hread : Arguments.read "Global" = .ok [.string "Global"] :=
    Arguments.read_single rfl rfl
  have hname : firstWord "Load Global" = "Load" ∧ afterWord "Load Global" = "Global" := by
    decide +kernel
  have hnone : (Registry.builtin.push op).find? "Load" = none := by decide +kernel
  have hentry : Instruction.ofEntry (Registry.builtin.push op) "Load Global"
      = .error (.operation (.unknown "Load")) := by
    unfold Instruction.ofEntry
    rw [hname.1, hname.2, hread]
    simp only [Instruction.ofName, Registry.lookup, hnone]
    rfl
  have hline : splitLines "Load Global\n" = [Text.ofString "Load Global"] ∧
      trim "Load Global" = "Load Global" ∧ isSkipped "Load Global" = false := by decide +kernel
  refine ⟨hdeclared.register (by decide +kernel), hformat, ?_⟩
  unfold Program.parse
  rw [hline.1, instructionsFrom]
  simp only [hline.2.1, hline.2.2, hentry]
  rfl

end FlatCode
