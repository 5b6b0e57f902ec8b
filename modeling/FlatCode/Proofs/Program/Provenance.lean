import FlatCode.Program.Document
import FlatCode.Proofs.Operation.Registration
import FlatCode.Proofs.Program.Joining

/-!
# Where the operations of a program come from

Over a session the registry changes while programs are built, read and edited. An instruction keeps
the operation that its name had when it was built, and each operation in a program is one that a
registry of the session had for the name (`Program.FoundIn`): an action brings no other ones in, and
goes on or leaves everything as it is.

* `Workspace.next` — what an action does to the registry and to the programs
* `foundIn_programsAfter` — an action brings no operation in that the registry has not
* `foundIn_after` — the operations of all programs are those of registries of the session
-/

namespace FlatCode

/-! ## Sessions -/

/-- What a session holds: the registry, and programs in the order in which they came. -/
structure Workspace where
  registry : Registry
  programs : List Program

/-- What is done in a session. Programs are told by their numbers. -/
inductive Action where
  /-- Registers operations, if asked for after going back to the built-in ones. -/
  | register (declaration : Declaration) (reset : Bool)
  /-- Goes back to the built-in operations. -/
  | clear
  /-- Builds a program of names with arguments. -/
  | build (calls : List (Text × List Json))
  /-- Reads a program from text. -/
  | parse (text : Text)
  /-- Reads a program from a document. -/
  | read (document : Json)
  /-- Copies a program. -/
  | clone (source : Nat)
  /-- Writes a program and reads it again. -/
  | reparse (source : Nat)
  /-- Puts a new instruction at the end of a program. -/
  | emit (target : Nat) (name : Text) (args : List Json)
  /-- Puts an instruction of some program at the end of a program. -/
  | append (target source : Nat) (place : Int)
  /-- Exchanges an instruction of a program for a new one. -/
  | replace (target : Nat) (idx : Int) (name : Text) (args : List Json)
  /-- Exchanges an instruction of a program for one of some program. -/
  | exchange (target : Nat) (idx : Int) (source : Nat) (place : Int)
  /-- Removes an instruction of a program. -/
  | nop (target : Nat) (idx : Int)

/-- The registry behind an action. -/
def Registry.next (registry : Registry) : Action → Registry
  | .register declaration reset => (registry.register declaration reset).2
  | .clear => .builtin
  | _ => registry

namespace Workspace

/-- The workspace at the start of a session. -/
def fresh : Workspace := ⟨.builtin, []⟩

variable (w : Workspace)

/-- The instruction at an index of a program; a negative index counts from the end. -/
def instructionAt (source : Nat) (place : Int) : Option Instruction :=
  w.programs[source]?.bind fun p => p.at? place

/-- The programs with one more, if there is one. -/
def hold : Option Program → List Program
  | some p => w.programs ++ [p]
  | none => w.programs

/-- The programs with one of them edited, if the edit goes through. -/
def edit (target : Nat) (change : Program → Option Program) : List Program :=
  match w.programs[target]?.bind change with
  | some q => w.programs.set target q
  | none => w.programs

/-- The programs behind an action. What fails leaves them as they are. -/
def programsAfter : Action → List Program
  | .register .. | .clear => w.programs
  | .build calls => w.hold (Program.ofCalls w.registry calls).toOption
  | .parse text => w.hold (Program.parse w.registry text).toOption
  | .read document => w.hold (Program.ofJson w.registry document).toOption
  | .clone source => w.hold w.programs[source]?
  | .reparse source => w.hold <|
      w.programs[source]?.bind fun p => p.format.toOption.bind fun text =>
        (Program.parse w.registry text).toOption
  | .emit target name args => w.edit target fun p => (p.emit w.registry name args).toOption
  | .append target source place => w.edit target fun p =>
      (w.instructionAt source place).map p.push
  | .replace target idx name args => w.edit target fun p =>
      (Instruction.ofName w.registry name args).toOption.bind fun instr =>
        (p.replace idx instr).toOption
  | .exchange target idx source place => w.edit target fun p =>
      (w.instructionAt source place).bind fun instr => (p.replace idx instr).toOption
  | .nop target idx => w.edit target fun p => (p.nop idx).toOption

/-- The workspace behind an action. -/
def next (action : Action) : Workspace := ⟨w.registry.next action, w.programsAfter action⟩

/-- The workspace behind several actions. -/
def after (actions : List Action) : Workspace := actions.foldl next w

end Workspace

/-- The registries that a session goes through. -/
def registriesOf (actions : List Action) : List Registry := actions.scanl Registry.next .builtin

/-! ## Provenance -/

/-- Whether an instruction has the operation that one of the registries has for its name. -/
def Instruction.FoundIn (history : List Registry) (instr : Instruction) : Prop :=
  ∃ registry ∈ history, registry.find? instr.name = some instr.operation

/-- Whether all instructions of a program do, each with a registry of its own. -/
def Program.FoundIn (history : List Registry) (p : Program) : Prop :=
  ∀ instr ∈ p.instructions, instr.FoundIn history

section Provenance

variable {history : List Registry} {registry : Registry} {p q : Program} {instr : Instruction}

theorem Instruction.foundIn_of_lookup (hregistry : registry ∈ history) {name : Text}
    {op : Operation} (h : registry.lookup name = .ok op) (args : List Json) :
    FoundIn history ⟨op, args⟩ := by
  refine ⟨registry, hregistry, ?_⟩
  have hname : op.name = name := Registry.name_of_lookup h
  change registry.find? op.name = some op
  rw [hname]
  exact Registry.find?_eq_some_of_lookup h

theorem Instruction.foundIn_of_ofName (hregistry : registry ∈ history) {name : Text}
    {args : List Json} (h : ofName registry name args = .ok instr) : instr.FoundIn history := by
  obtain ⟨op, hlookup, rfl⟩ := map_eq_ok_iff.mp h
  exact foundIn_of_lookup hregistry hlookup args

theorem Instruction.foundIn_of_ofEntry (hregistry : registry ∈ history) {entry : Text}
    (h : ofEntry registry entry = .ok instr) : instr.FoundIn history := by
  unfold ofEntry at h
  split at h
  · cases h
  · exact foundIn_of_ofName hregistry (mapError_eq_ok_iff.mp h)

theorem Instruction.foundIn_of_ofJson (hregistry : registry ∈ history) {document : Json}
    (h : ofJson registry document = .ok instr) : instr.FoundIn history := by
  unfold ofJson at h
  split at h
  · split at h
    · cases h
    · split at h
      · cases h
      · next op hlookup =>
        obtain ⟨args, -, rfl⟩ := map_eq_ok_iff.mp h
        -- only a text is the name of an operation
        unfold Registry.lookupJson at hlookup
        split at hlookup
        · exact foundIn_of_lookup hregistry (mapError_eq_ok_iff.mp hlookup) args
        · cases hlookup
        · cases hlookup
  · cases h

namespace Program.FoundIn

/-! ### New programs -/

theorem of_parse (hregistry : registry ∈ history) {text : Text}
    (h : parse registry text = .ok q) : q.FoundIn history := by
  intro instr hinstr
  obtain ⟨entry, hentry⟩ := exists_entry_of_mem (parse_eq_ok_iff.mp h) hinstr
  exact Instruction.foundIn_of_ofEntry hregistry hentry

theorem of_ofJson (hregistry : registry ∈ history) {document : Json}
    (h : ofJson registry document = .ok q) : q.FoundIn history := by
  unfold ofJson at h
  split at h
  · split at h
    · cases h
    · split at h
      · cases h
      · obtain ⟨instrs, hinstrs, rfl⟩ := map_eq_ok_iff.mp h
        intro instr hinstr
        obtain ⟨entry, -, hentry⟩ := exists_of_mem_of_mapM hinstrs hinstr
        exact Instruction.foundIn_of_ofJson hregistry hentry
  · cases h

theorem push (h : p.FoundIn history) (hinstr : instr.FoundIn history) :
    (p.push instr).FoundIn history :=
  List.forall_mem_append.mpr ⟨h, List.forall_mem_singleton.mpr hinstr⟩

theorem emit (hregistry : registry ∈ history) {name : Text} {args : List Json}
    (h : p.FoundIn history) (hq : p.emit registry name args = .ok q) : q.FoundIn history := by
  obtain ⟨instr, hinstr, rfl⟩ := map_eq_ok_iff.mp hq
  exact h.push (Instruction.foundIn_of_ofName hregistry hinstr)

theorem of_ofCalls (hregistry : registry ∈ history) {calls : List (Text × List Json)}
    (hq : ofCalls registry calls = .ok q) : q.FoundIn history := by
  have hempty : Program.empty.FoundIn history :=
    fun instr hinstr => absurd hinstr List.not_mem_nil
  unfold ofCalls at hq
  generalize Program.empty = p at hempty hq
  induction calls generalizing p with
  | nil =>
    cases hq
    exact hempty
  | cons call calls ih =>
    rw [List.foldlM_cons] at hq
    cases hemit : p.emit registry call.1 call.2 with
    | error e =>
      rw [hemit] at hq
      cases hq
    | ok next =>
      rw [hemit] at hq
      exact ih next (hempty.emit hregistry hemit) hq

/-! ### Edits -/

theorem at? (h : p.FoundIn history) {idx : Int} (hinstr : p.at? idx = some instr) :
    instr.FoundIn history := by
  unfold Program.at? select? at hinstr
  split at hinstr
  · exact h instr (List.mem_of_getElem? hinstr)
  · split at hinstr
    · exact h instr (List.mem_of_getElem? hinstr)
    · cases hinstr

theorem replace (h : p.FoundIn history) {idx : Int} (hinstr : instr.FoundIn history)
    (hq : p.replace idx instr = .ok q) : q.FoundIn history := by
  unfold Program.replace at hq
  split at hq
  · cases hq
    intro other hother
    rcases List.mem_or_eq_of_mem_set hother with hmem | rfl
    · exact h other hmem
    · exact hinstr
  · cases hq

end Program.FoundIn

end Provenance

/-! ## Runs -/

namespace Workspace

variable {history : List Registry} {w : Workspace}

theorem foundIn_hold (h : ∀ p ∈ w.programs, p.FoundIn history) {result : Option Program}
    (hresult : ∀ p, result = some p → p.FoundIn history) :
    ∀ p ∈ w.hold result, p.FoundIn history := by
  cases result with
  | none => exact h
  | some p => exact List.forall_mem_append.mpr ⟨h, List.forall_mem_singleton.mpr (hresult p rfl)⟩

theorem foundIn_edit (h : ∀ p ∈ w.programs, p.FoundIn history) {target : Nat}
    {change : Program → Option Program}
    (hchange : ∀ p, p.FoundIn history → ∀ q, change p = some q → q.FoundIn history) :
    ∀ p ∈ w.edit target change, p.FoundIn history := by
  unfold edit
  split
  · next q hq =>
    obtain ⟨p, hp, hq⟩ := Option.bind_eq_some_iff.mp hq
    intro other hother
    rcases List.mem_or_eq_of_mem_set hother with hmem | rfl
    · exact h other hmem
    · exact hchange p (h p (List.mem_of_getElem? hp)) _ hq
  · exact h

theorem foundIn_instructionAt (h : ∀ p ∈ w.programs, p.FoundIn history) {source : Nat}
    {place : Int} {instr : Instruction} (hinstr : w.instructionAt source place = some instr) :
    instr.FoundIn history := by
  obtain ⟨p, hp, hat⟩ := Option.bind_eq_some_iff.mp hinstr
  exact (h p (List.mem_of_getElem? hp)).at? hat

/-- **An action brings no operation in that the registry has not.** -/
theorem foundIn_programsAfter (hbuiltin : .builtin ∈ history) (hregistry : w.registry ∈ history)
    (h : ∀ p ∈ w.programs, p.FoundIn history) (action : Action) :
    ∀ p ∈ w.programsAfter action, p.FoundIn history := by
  cases action with
  | register declaration reset => exact h
  | clear => exact h
  | build calls =>
    exact foundIn_hold h fun p hp => .of_ofCalls hregistry (eq_ok_of_toOption hp)
  | parse text => exact foundIn_hold h fun p hp => .of_parse hregistry (eq_ok_of_toOption hp)
  | read document => exact foundIn_hold h fun p hp => .of_ofJson hregistry (eq_ok_of_toOption hp)
  | clone source => exact foundIn_hold h fun p hp => h p (List.mem_of_getElem? hp)
  | reparse source =>
    refine foundIn_hold h fun q hq => ?_
    obtain ⟨p, -, hq⟩ := Option.bind_eq_some_iff.mp hq
    obtain ⟨text, -, hq⟩ := Option.bind_eq_some_iff.mp hq
    exact .of_parse hregistry (eq_ok_of_toOption hq)
  | emit target name args =>
    exact foundIn_edit h fun p hp q hq => hp.emit hregistry (eq_ok_of_toOption hq)
  | append target source place =>
    refine foundIn_edit h fun p hp q hq => ?_
    obtain ⟨instr, hinstr, rfl⟩ := Option.map_eq_some_iff.mp hq
    exact hp.push (foundIn_instructionAt h hinstr)
  | replace target idx name args =>
    refine foundIn_edit h fun p hp q hq => ?_
    obtain ⟨instr, hinstr, hq⟩ := Option.bind_eq_some_iff.mp hq
    exact hp.replace (Instruction.foundIn_of_ofName hregistry (eq_ok_of_toOption hinstr))
      (eq_ok_of_toOption hq)
  | exchange target idx source place =>
    refine foundIn_edit h fun p hp q hq => ?_
    obtain ⟨instr, hinstr, hq⟩ := Option.bind_eq_some_iff.mp hq
    exact hp.replace (foundIn_instructionAt h hinstr) (eq_ok_of_toOption hq)
  | nop target idx =>
    have hnop : Instruction.nop.FoundIn history :=
      ⟨.builtin, hbuiltin, find?_of_builtin (List.prefix_refl _) List.mem_cons_self⟩
    exact foundIn_edit h fun p hp q hq => hp.replace hnop (eq_ok_of_toOption hq)

/-- **The operations of all programs are those of registries of the session.** -/
theorem foundIn_after {actions : List Action} (hbuiltin : .builtin ∈ history)
    (hhistory : ∀ registry ∈ actions.scanl Registry.next w.registry, registry ∈ history)
    (h : ∀ p ∈ w.programs, p.FoundIn history) :
    ∀ p ∈ (w.after actions).programs, p.FoundIn history := by
  induction actions generalizing w with
  | nil => exact h
  | cons action actions ih =>
    rw [List.scanl_cons] at hhistory
    obtain ⟨hregistry, hbehind⟩ := List.forall_mem_cons.mp hhistory
    exact ih hbehind (foundIn_programsAfter hbuiltin hregistry h action)

end Workspace

end FlatCode
