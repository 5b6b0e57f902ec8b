import FlatCode.Cli.Run
import FlatCode.Proofs.Json.Decidable
import FlatCode.Proofs.Program.DocumentShape

/-!
# Loading a document from the command line

A command line that loads a document file goes on with the program that the document describes. A
document that is rejected is reported on a line, and the run ends with code one. A document that is
misshapen is not reported: the error ends the run as a failure, although the file is a JSON text.

* `loadPart_of_ok`, `loadPart_of_error` — what loading does with a document
* `run_of_loadPart` — a run whose loading ends it
* `document_outcomes` — what a document does to a run
-/

namespace FlatCode.Cli

open Program

variable {args : List String} {shell ready after : Shell} {options : Options} {doc : Json}
  {e : DocumentError}

/-- Whether the options name a document file of a store that holds the text of a document. -/
def LoadsFrom (store : FileStore) (options : Options) (doc : Json) : Prop :=
  ∃ name bytes text, nonempty options.load = some name ∧
    (Path.ofString name).holdsDocument = true ∧ store.read (Path.ofString name) = .ok bytes ∧
    Text.decode bytes = .ok text ∧ Json.read (.ofChars (lineFeeds text)) = .ok doc

/-- Whether a command line gets as far as reading a document: its words are options, its operations
are registered, which leads to another shell, and the file that it loads holds the document. -/
structure LoadsDocument (args : List String) (shell ready : Shell) (options : Options)
    (doc : Json) : Prop where
  parsed : standardOptions.parse args = .ok options
  registered : whenAsked (nonempty options.operations) registerPart shell = (.ok (), ready)
  loads : LoadsFrom ready.store options doc

/-! ## Loading -/

theorem exists_load_of_loadsFrom {store : FileStore} (h : LoadsFrom store options doc) :
    ∃ name, nonempty options.load = some name ∧ ∀ registry,
      Program.load registry (Path.ofString name) store
        = (Program.ofJson registry doc).mapError .document := by
  obtain ⟨name, bytes, text, hname, hdocument, hread, hdecode, htext⟩ := h
  refine ⟨name, hname, fun registry => ?_⟩
  simp only [Program.load, hread, hdecode, Program.ofFileText, hdocument, if_true, htext]

theorem loadPart_of_ok (h : LoadsFrom ready.store options doc) {program : Program}
    (hdoc : Program.ofJson ready.registry doc = .ok program) :
    loadPart options ready = (.ok program, ready) := by
  obtain ⟨name, hname, hload⟩ := exists_load_of_loadsFrom h
  unfold loadPart
  rw [hname]
  dsimp only
  rw [hload, hdoc]
  rfl

theorem loadPart_of_error (h : LoadsFrom ready.store options doc)
    (hdoc : Program.ofJson ready.registry doc = .error e) :
    loadPart options ready = if isReportedLoad (.document e) then complain e.message ready
      else fail (.load (.document e)) ready := by
  obtain ⟨name, hname, hload⟩ := exists_load_of_loadsFrom h
  unfold loadPart
  rw [hname]
  dsimp only
  rw [hload, hdoc]
  rfl

/-- A run whose loading ends it ends in the same way. -/
theorem run_of_loadPart {ending : Ending} (hparsed : standardOptions.parse args = .ok options)
    (hregistered : whenAsked (nonempty options.operations) registerPart shell = (.ok (), ready))
    (hload : loadPart options ready = (.error ending, after)) :
    (run args shell).1 = ending ∧ (run args shell).2.output = after.output := by
  have hoptions : runOptions options shell = (.error ending, after) := by
    unfold runOptions Part.andThen
    rw [hregistered]
    dsimp only
    rw [hload]
  unfold run
  rw [hparsed]
  dsimp only
  rw [hoptions]
  exact ⟨rfl, rfl⟩

/-! ## Which errors are reported -/

theorem isReportedLoad_of_rejected {registry : Registry} (h : Rejected registry doc e) :
    isReportedLoad (.document e) = true := by
  cases h with
  | missing h => rfl
  | entry h =>
    obtain ⟨_, _, _, _, -, -, hentry⟩ := h
    cases hentry
    rfl

theorem isReportedLoad_of_misshapen {registry : Registry} (h : Misshapen registry doc e) :
    isReportedLoad (.document e) = false := by
  cases h with
  | notList => rfl
  | entry h =>
    obtain ⟨_, _, _, _, -, -, hentry⟩ := h
    cases hentry <;> rfl

/-! ## Outcomes -/

/-- A file in a store of nothing else. -/
def shellOfFile (name text : String) : Shell where
  registry := .builtin
  store := ⟨[], [([name], text.toList.flatMap Text.encodeChar)]⟩

/-- **A JSON text that is loaded may end the run as a failure**: an entry without an operation is
not reported. -/
theorem entry_without_operation :
    let text := "\x7b\"instructions\": [\x7b\"args\": [1]\x7d]\x7d"
    Json.read text
        = .ok (.object [("instructions", .array [.object [("args", .array [.int 1])]])]) ∧
      (run ["--load", "p.json"] (shellOfFile "p.json" text)).1
        = .failed (.load (.document .operationMissing)) :=
  ⟨eq_ok_of_toOption (by decide +kernel), by decide +kernel⟩

/-- **What a document does to a run.** It is read if each of its entries describes an instruction,
one to one and in order, and then the run goes on with that program. Otherwise it is rejected, and
the run says so and ends with code one, or it is misshapen, and the run fails. -/
theorem document_outcomes (registry : Registry) (doc : Json) :
    (∀ program, Program.ofJson registry doc = .ok program ↔
      ∃ entries, Lists doc entries ∧
        List.Forall₂ (Instruction.Describes registry) entries program.instructions) ∧
    (∀ e, Program.ofJson registry doc = .error e ↔
      Rejected registry doc e ∨ Misshapen registry doc e) ∧
    ∀ args shell ready options, LoadsDocument args shell ready options doc →
      ready.registry = registry →
      (∀ program, Program.ofJson registry doc = .ok program →
        loadPart options ready = (.ok program, ready)) ∧
      (∀ e, Rejected registry doc e → (run args shell).1 = .exit 1 ∧
        (run args shell).2.output = (ready.report e.message).output) ∧
      ∀ e, Misshapen registry doc e → (run args shell).1 = .failed (.load (.document e)) := by
  refine ⟨fun _ => ofJson_eq_ok_iff, fun _ => ofJson_eq_error_iff, ?_⟩
  rintro args shell ready options h rfl
  refine ⟨fun program => loadPart_of_ok h.loads, fun e hrejected => ?_, fun e hmisshapen => ?_⟩
  · have hload := loadPart_of_error h.loads (ofJson_eq_error_iff.mpr (.inl hrejected))
    rw [if_pos (isReportedLoad_of_rejected hrejected)] at hload
    exact run_of_loadPart h.parsed h.registered hload
  · have hload := loadPart_of_error h.loads (ofJson_eq_error_iff.mpr (.inr hmisshapen))
    rw [if_neg (by simp [isReportedLoad_of_misshapen hmisshapen])] at hload
    exact (run_of_loadPart h.parsed h.registered hload).1

/-- Two documents whose first entry is fine: the second one names no known operation in one, and is
a number in the other. -/
theorem document_outcomes_second_entry :
    let fine := Json.object [("op", .string "Return"), ("args", .null)]
    let rejected := Json.object [("instructions", .array [fine, .object [("op", .string "Hop")]])]
    let misshapen := Json.object [("instructions", .array [fine, .int 5])]
    let text (entry : String) :=
      "\x7b\"instructions\": [\x7b\"op\": \"Return\", \"args\": null\x7d, " ++ entry ++ "]\x7d"
    let args := ["--load", "p.json"]
    let options := { standardOptions with load := some "p.json" }
    let shell (entry : String) := shellOfFile "p.json" (text entry)
    let hop := shell "\x7b\"op\": \"Hop\"\x7d"
    LoadsDocument args hop hop options rejected ∧
      Rejected .builtin rejected (.operation (.unknown "Hop")) ∧
      ((run args hop).1 = .exit 1 ∧
        (run args hop).2.output
          = (hop.report (DocumentError.operation (.unknown "Hop")).message).output) ∧
      LoadsDocument args (shell "5") (shell "5") options misshapen ∧
      Misshapen .builtin misshapen .entryNotObject ∧
      (run args (shell "5")).1 = .failed (.load (.document .entryNotObject)) := by
  intro fine rejected misshapen text args options shell hop
  have hloads {entry : String} {doc : Json}
      (hread : (FileStore.read (shell entry).store (Path.ofString "p.json")).toOption
        = some ((text entry).toList.flatMap Text.encodeChar))
      (hdecode : (Text.decode ((text entry).toList.flatMap Text.encodeChar)).toOption
        = some (text entry).toList)
      (hdoc : (Json.read (.ofChars (lineFeeds (text entry).toList))).toOption = some doc) :
      LoadsDocument args (shell entry) (shell entry) options doc := by
    refine ⟨eq_ok_of_toOption (by decide +kernel), rfl, "p.json", _, _, rfl, by decide +kernel,
      eq_ok_of_toOption hread, eq_ok_of_toOption hdecode, eq_ok_of_toOption hdoc⟩
  have hrejected : LoadsDocument args hop hop options rejected :=
    hloads (by decide +kernel) (by decide +kernel) (by decide +kernel)
  have hmisshapen : LoadsDocument args (shell "5") (shell "5") options misshapen :=
    hloads (by decide +kernel) (by decide +kernel) (by decide +kernel)
  have hfine : List.Forall₂ (Instruction.Describes .builtin) [fine] [⟨.ofSimple "Return", []⟩] :=
    .cons ⟨_, "Return", rfl, rfl, eq_ok_of_toOption (by decide +kernel), .inl ⟨rfl, rfl⟩⟩ .nil
  have hunknown : Rejected .builtin rejected (.operation (.unknown "Hop")) :=
    .entry ⟨[fine], _, [], _, ⟨_, _, rfl, rfl, rfl⟩, hfine,
      .operation rfl (.text (by decide +kernel))⟩
  have hnumber : Misshapen .builtin misshapen .entryNotObject :=
    .entry ⟨[fine], .int 5, [], _, ⟨_, _, rfl, rfl, rfl⟩, hfine, .notObject (by simp)⟩
  have hruns := (document_outcomes .builtin rejected).2.2 _ _ _ _ hrejected rfl
  have hfails := (document_outcomes .builtin misshapen).2.2 _ _ _ _ hmisshapen rfl
  exact ⟨hrejected, hunknown, hruns.2.1 _ hunknown, hmisshapen, hnumber, hfails.2.2 _ hnumber⟩

end FlatCode.Cli
