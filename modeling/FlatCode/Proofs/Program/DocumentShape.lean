import FlatCode.Program.Document
import FlatCode.Proofs.Results

/-!
# What documents are read, and why others are not

A document is read as a program if it lists entries and each of them describes an instruction; the
instructions correspond to the entries one to one. It is refused in two ways. Its list is missing
or an entry names no known operation (`Program.Rejected`): that is an error of the user. Or what is
gone through as a list, an object, a name or arguments is a value of another kind
(`Program.Misshapen`). An entry is looked at only where all entries in front of it are read.

* `Instruction.ofJson_eq_ok_iff`, `Instruction.ofJson_eq_error_iff` — entries
* `Program.ofJson_eq_ok_iff`, `Program.ofJson_eq_error_iff` — documents
-/

namespace FlatCode

variable {registry : Registry} {value entry doc : Json} {fields : List (Text × Json)}
  {e : DocumentError}

/-! ## The operation of an entry -/

/-- Whether a value is looked up under a name that no operation has. Other values than texts are
looked up under how they are shown, and no operation is found for them. -/
inductive Registry.Misses (registry : Registry) : Json → Text → Prop
  | text {name : Text} (h : registry.find? name = none) : registry.Misses (.string name) name
  | scalar {value : Json} {name : Text} (hvalue : ∀ text, value ≠ .string text)
      (h : value.lookupName? = some name) : registry.Misses value name

theorem Registry.lookup_eq_error_iff {name : Text} {e : DeclarationError} :
    registry.lookup name = .error e ↔ registry.find? name = none ∧ e = .unknown name := by
  unfold lookup
  cases registry.find? name with
  | none => simp [eq_comm]
  | some op => simp

theorem Registry.lookupJson_of_ne (h : ∀ text, value ≠ .string text) :
    registry.lookupJson value = match value.lookupName? with
      | some name => .error (.operation (.unknown name))
      | none => .error .operationNotName := by
  unfold lookupJson
  cases value with
  | string text => exact absurd rfl (h text)
  | null | bool b | int n | array items | object fields => rfl
  | float x => cases (Json.float x).lookupName? <;> rfl

theorem Registry.lookupJson_eq_ok_iff {op : Operation} :
    registry.lookupJson value = .ok op ↔
      ∃ name, value = .string name ∧ registry.lookup name = .ok op := by
  by_cases h : ∃ name, value = .string name
  · obtain ⟨name, rfl⟩ := h
    simp [lookupJson, mapError_eq_ok_iff]
  · rw [lookupJson_of_ne fun text hvalue => h ⟨text, hvalue⟩]
    constructor
    · intro hop
      split at hop <;> cases hop
    · rintro ⟨name, rfl, -⟩
      exact absurd ⟨name, rfl⟩ h

theorem Registry.lookupJson_eq_error_iff :
    registry.lookupJson value = .error e ↔
      (∃ name, registry.Misses value name ∧ e = .operation (.unknown name)) ∨
        (value.lookupName? = none ∧ e = .operationNotName) := by
  by_cases h : ∃ name, value = .string name
  · obtain ⟨name, rfl⟩ := h
    have hlookup : registry.lookupJson (.string name)
        = (registry.lookup name).mapError .operation := rfl
    have hname : (Json.string name).lookupName? = some name := rfl
    rw [hlookup, mapError_eq_error_iff, hname]
    constructor
    · rintro ⟨e', he', rfl⟩
      obtain ⟨hnone, rfl⟩ := lookup_eq_error_iff.mp he'
      exact .inl ⟨name, .text hnone, rfl⟩
    · rintro (⟨other, hmisses, rfl⟩ | ⟨hnone, -⟩)
      · cases hmisses with
        | text hnone => exact ⟨_, lookup_eq_error_iff.mpr ⟨hnone, rfl⟩, rfl⟩
        | scalar hvalue _ => exact absurd rfl (hvalue name)
      · cases hnone
  · have hvalue : ∀ text, value ≠ .string text := fun text htext => h ⟨text, htext⟩
    rw [lookupJson_of_ne hvalue]
    cases hname : value.lookupName? with
    | none =>
      constructor
      · intro he
        cases he
        exact .inr ⟨rfl, rfl⟩
      · rintro (⟨name, hmisses, -⟩ | ⟨-, rfl⟩)
        · cases hmisses with
          | text _ => exact absurd rfl (hvalue name)
          | scalar _ hsome =>
            rw [hname] at hsome
            cases hsome
        · rfl
    | some name =>
      constructor
      · intro he
        cases he
        exact .inl ⟨name, .scalar hvalue hname, rfl⟩
      · rintro (⟨other, hmisses, rfl⟩ | ⟨hnone, -⟩)
        · cases hmisses with
          | text _ => exact absurd rfl (hvalue other)
          | scalar _ hsome =>
            rw [hname] at hsome
            rw [Option.some.inj hsome]
        · cases hnone

/-! ## The arguments of an entry -/

/-- Whether a value stands for a list of arguments: for none if it counts as false, and else for the
items that it can be gone through by. -/
def Json.ListsArguments (value : Json) (args : List Json) : Prop :=
  (value.truthy = false ∧ args = []) ∨ (value.truthy = true ∧ value.items? = some args)

theorem Instruction.argsOfJson_eq_ok_iff {args : List Json} :
    argsOfJson value = .ok args ↔ value.ListsArguments args := by
  unfold argsOfJson Json.ListsArguments
  cases value.truthy with
  | false => simp [eq_comm]
  | true => cases value.items? <;> simp

theorem Instruction.argsOfJson_eq_error_iff :
    argsOfJson value = .error e ↔
      value.truthy = true ∧ value.items? = none ∧ e = .argumentsNotList := by
  unfold argsOfJson
  cases value.truthy with
  | false => simp
  | true => cases value.items? <;> simp [eq_comm]

/-! ## Entries -/

namespace Instruction

/-- What an entry holds for the arguments: no arguments if it has no such field. -/
def argumentsField (fields : List (Text × Json)) : Json :=
  (Json.field? "args" fields).getD (.array [])

/-- Whether an entry describes an instruction: it is an object that names the operation in a text,
and what it holds for the arguments stands for them. -/
def Describes (registry : Registry) (entry : Json) (instr : Instruction) : Prop :=
  ∃ fields name, entry = .object fields ∧ Json.field? "op" fields = some (.string name) ∧
    registry.lookup name = .ok instr.operation ∧ (argumentsField fields).ListsArguments instr.args

/-- Whether an entry names no known operation, with the error that says so. -/
inductive Unknown (registry : Registry) : Json → DocumentError → Prop
  | operation {fields : List (Text × Json)} {value : Json} {name : Text}
      (hop : Json.field? "op" fields = some value) (h : registry.Misses value name) :
      Unknown registry (.object fields) (.operation (.unknown name))

/-- Whether an entry has a part of a kind that nothing is made of, with the error that says so. -/
inductive Misshapen (registry : Registry) : Json → DocumentError → Prop
  | notObject {entry : Json} (h : ∀ fields, entry ≠ .object fields) :
      Misshapen registry entry .entryNotObject
  | noOperation {fields : List (Text × Json)} (hop : Json.field? "op" fields = none) :
      Misshapen registry (.object fields) .operationMissing
  | notName {fields : List (Text × Json)} {value : Json}
      (hop : Json.field? "op" fields = some value) (h : value.lookupName? = none) :
      Misshapen registry (.object fields) .operationNotName
  | notArguments {fields : List (Text × Json)} {name : Text} {op : Operation}
      (hop : Json.field? "op" fields = some (.string name)) (h : registry.lookup name = .ok op)
      (htruthy : (argumentsField fields).truthy = true)
      (hitems : (argumentsField fields).items? = none) :
      Misshapen registry (.object fields) .argumentsNotList

theorem ofJson_of_ne (h : ∀ fields, entry ≠ .object fields) :
    ofJson registry entry = .error .entryNotObject := by
  cases entry with
  | object fields => exact absurd rfl (h fields)
  | null | bool b | int n | float x | string s | array items => rfl

/-- An object is read if its operation is known and its arguments are listed. -/
theorem ofJson_object (fields : List (Text × Json)) :
    ofJson registry (.object fields) = match Json.field? "op" fields with
      | none => .error .operationMissing
      | some name => do
        let operation ← registry.lookupJson name
        let args ← argsOfJson (argumentsField fields)
        return ⟨operation, args⟩ := by
  unfold ofJson
  dsimp only
  cases Json.field? "op" fields with
  | none => rfl
  | some value =>
    dsimp only
    cases registry.lookupJson value with
    | error e => rfl
    | ok operation =>
      change (argsOfJson (argumentsField fields)).map _ = _
      cases argsOfJson (argumentsField fields) <;> rfl

/-- **An entry is read as the instruction that it describes.** -/
theorem ofJson_eq_ok_iff {instr : Instruction} :
    ofJson registry entry = .ok instr ↔ Describes registry entry instr := by
  constructor
  · intro h
    by_cases hobject : ∃ fields, entry = .object fields
    · obtain ⟨fields, rfl⟩ := hobject
      rw [ofJson_object] at h
      split at h
      · cases h
      · next value hop =>
        cases hlookup : registry.lookupJson value with
        | error e =>
          rw [hlookup] at h
          cases h
        | ok operation =>
          cases hargs : argsOfJson (argumentsField fields) with
          | error e =>
            rw [hlookup, hargs] at h
            cases h
          | ok args =>
            rw [hlookup, hargs] at h
            cases h
            obtain ⟨name, rfl, hname⟩ := Registry.lookupJson_eq_ok_iff.mp hlookup
            exact ⟨fields, name, rfl, hop, hname, argsOfJson_eq_ok_iff.mp hargs⟩
    · rw [ofJson_of_ne fun fields hentry => hobject ⟨fields, hentry⟩] at h
      cases h
  · rintro ⟨fields, name, rfl, hop, hname, hargs⟩
    have hlookup := Registry.lookupJson_eq_ok_iff.mpr ⟨name, rfl, hname⟩
    rw [ofJson_object, hop]
    dsimp only
    rw [hlookup, argsOfJson_eq_ok_iff.mpr hargs]
    rfl

theorem ofJson_eq_ok_describes (registry : Registry) :
    (fun entry instr => ofJson registry entry = .ok instr) = Describes registry :=
  funext fun _ => funext fun _ => propext ofJson_eq_ok_iff

theorem ofJson_of_unknown (h : Unknown registry entry e) : ofJson registry entry = .error e := by
  cases h with
  | operation hop hmisses =>
    have hlookup := Registry.lookupJson_eq_error_iff.mpr (.inl ⟨_, hmisses, rfl⟩)
    rw [ofJson_object, hop]
    dsimp only
    rw [hlookup]
    rfl

theorem ofJson_of_misshapen (h : Misshapen registry entry e) :
    ofJson registry entry = .error e := by
  cases h with
  | notObject h => exact ofJson_of_ne h
  | noOperation hop => rw [ofJson_object, hop]
  | @notName _ value hop h =>
    have hlookup : registry.lookupJson value = .error .operationNotName :=
      Registry.lookupJson_eq_error_iff.mpr (.inr ⟨h, rfl⟩)
    rw [ofJson_object, hop]
    dsimp only
    rw [hlookup]
    rfl
  | notArguments hop h htruthy hitems =>
    have hlookup := Registry.lookupJson_eq_ok_iff.mpr ⟨_, rfl, h⟩
    rw [ofJson_object, hop]
    dsimp only
    rw [hlookup, argsOfJson_eq_error_iff.mpr ⟨htruthy, hitems, rfl⟩]
    rfl

/-- **An entry is refused** if it names no known operation or is misshapen. -/
theorem ofJson_eq_error_iff :
    ofJson registry entry = .error e ↔ Unknown registry entry e ∨ Misshapen registry entry e := by
  refine ⟨fun h => ?_, fun h => h.elim ofJson_of_unknown ofJson_of_misshapen⟩
  by_cases hobject : ∃ fields, entry = .object fields
  · obtain ⟨fields, rfl⟩ := hobject
    rw [ofJson_object] at h
    split at h
    · next hop =>
      cases h
      exact .inr (.noOperation hop)
    · next value hop =>
      cases hlookup : registry.lookupJson value with
      | error e' =>
        rw [hlookup] at h
        cases h
        rcases Registry.lookupJson_eq_error_iff.mp hlookup with ⟨name, hmisses, rfl⟩ | ⟨hno, rfl⟩
        · exact .inl (.operation hop hmisses)
        · exact .inr (.notName hop hno)
      | ok operation =>
        obtain ⟨name, rfl, hname⟩ := Registry.lookupJson_eq_ok_iff.mp hlookup
        cases hargs : argsOfJson (argumentsField fields) with
        | error e' =>
          rw [hlookup, hargs] at h
          cases h
          obtain ⟨htruthy, hitems, rfl⟩ := argsOfJson_eq_error_iff.mp hargs
          exact .inr (.notArguments hop hname htruthy hitems)
        | ok args =>
          rw [hlookup, hargs] at h
          cases h
  · have hentry : ∀ fields, entry ≠ .object fields := fun fields heq => hobject ⟨fields, heq⟩
    rw [ofJson_of_ne hentry] at h
    cases h
    exact .inr (.notObject hentry)

end Instruction

/-! ## Documents -/

namespace Program

/-- Whether a document lists entries: its instructions can be gone through, one entry after the
other. -/
def Lists (doc : Json) (entries : List Json) : Prop :=
  ∃ fields value, doc = .object fields ∧ Json.field? "instructions" fields = some value ∧
    value.items? = some entries

/-- Whether the first entry of a document that describes no instruction is of a kind. -/
def FirstRefused (registry : Registry) (doc : Json) (kind : Json → Prop) : Prop :=
  ∃ front entry behind found, Lists doc (front ++ entry :: behind) ∧
    List.Forall₂ (Instruction.Describes registry) front found ∧ kind entry

/-- Whether a document lists no entries at all, or names no known operation in one, with the error
that says so. -/
inductive Rejected (registry : Registry) (doc : Json) : DocumentError → Prop
  | missing (h : ∀ fields, doc = .object fields → Json.field? "instructions" fields = none) :
      Rejected registry doc .missingInstructions
  | entry {e : DocumentError}
      (h : FirstRefused registry doc fun entry => Instruction.Unknown registry entry e) :
      Rejected registry doc e

/-- Whether a document has a part of a kind that nothing is made of, with the error that says so. -/
inductive Misshapen (registry : Registry) (doc : Json) : DocumentError → Prop
  | notList {fields : List (Text × Json)} {value : Json} (hdoc : doc = .object fields)
      (hfield : Json.field? "instructions" fields = some value) (h : value.items? = none) :
      Misshapen registry doc .instructionsNotList
  | entry {e : DocumentError}
      (h : FirstRefused registry doc fun entry => Instruction.Misshapen registry entry e) :
      Misshapen registry doc e

theorem ofJson_of_lists {entries : List Json} (h : Lists doc entries) :
    ofJson registry doc = (entries.mapM (Instruction.ofJson registry)).map Program.mk := by
  obtain ⟨fields, value, rfl, hfield, hitems⟩ := h
  simp only [ofJson, hfield, hitems]

/-- A document has no instructions, or they are no list, or it lists entries. -/
theorem lists_cases (doc : Json) :
    (∀ fields, doc = .object fields → Json.field? "instructions" fields = none) ∨
      (∃ fields value, doc = .object fields ∧ Json.field? "instructions" fields = some value ∧
        value.items? = none) ∨
      ∃ entries, Lists doc entries := by
  by_cases hobject : ∃ fields, doc = .object fields
  · obtain ⟨fields, rfl⟩ := hobject
    cases hfield : Json.field? "instructions" fields with
    | none =>
      refine .inl fun others heq => ?_
      cases heq
      exact hfield
    | some value =>
      cases hitems : value.items? with
      | none => exact .inr (.inl ⟨fields, value, rfl, hfield, hitems⟩)
      | some entries => exact .inr (.inr ⟨entries, fields, value, rfl, hfield, hitems⟩)
  · exact .inl fun fields heq => absurd ⟨fields, heq⟩ hobject

theorem ofJson_of_missing
    (h : ∀ fields, doc = .object fields → Json.field? "instructions" fields = none) :
    ofJson registry doc = .error .missingInstructions := by
  cases doc with
  | object fields => simp only [ofJson, h fields rfl]
  | null | bool b | int n | float x | string s | array items => rfl

theorem ofJson_of_notList (h : Json.field? "instructions" fields = some value)
    (hitems : value.items? = none) :
    ofJson registry (.object fields) = .error .instructionsNotList := by
  simp only [ofJson, h, hitems]

/-- **A document is read if each of its entries describes an instruction**, and gives these
instructions, one for each entry and in order. -/
theorem ofJson_eq_ok_iff {program : Program} :
    ofJson registry doc = .ok program ↔ ∃ entries, Lists doc entries ∧
      List.Forall₂ (Instruction.Describes registry) entries program.instructions := by
  constructor
  · intro h
    rcases lists_cases doc with hmissing | ⟨fields, value, rfl, hfield, hitems⟩ | ⟨entries, hlists⟩
    · rw [ofJson_of_missing hmissing] at h
      cases h
    · rw [ofJson_of_notList hfield hitems] at h
      cases h
    · rw [ofJson_of_lists hlists, map_eq_ok_iff] at h
      obtain ⟨instrs, hinstrs, rfl⟩ := h
      rw [mapM_eq_ok_iff, Instruction.ofJson_eq_ok_describes] at hinstrs
      exact ⟨entries, hlists, hinstrs⟩
  · rintro ⟨entries, hlists, hentries⟩
    rw [← Instruction.ofJson_eq_ok_describes] at hentries
    rw [ofJson_of_lists hlists, mapM_eq_ok_iff.mpr hentries]
    rfl

/-- A document that lists entries is refused for the first of them that is refused. -/
theorem ofJson_eq_error_of_lists {entries : List Json} (h : Lists doc entries) :
    ofJson registry doc = .error e ↔ ∃ front entry behind found,
      entries = front ++ entry :: behind ∧
      List.Forall₂ (Instruction.Describes registry) front found ∧
      (Instruction.Unknown registry entry e ∨ Instruction.Misshapen registry entry e) := by
  rw [ofJson_of_lists h, map_eq_error_iff, mapM_eq_error_iff_exists,
    Instruction.ofJson_eq_ok_describes]
  simp only [Instruction.ofJson_eq_error_iff]

/-- **A document is refused** if it lists no entries, or for the first of them that names no known
operation or is misshapen. -/
theorem ofJson_eq_error_iff :
    ofJson registry doc = .error e ↔ Rejected registry doc e ∨ Misshapen registry doc e := by
  constructor
  · intro h
    rcases lists_cases doc with hmissing | ⟨fields, value, rfl, hfield, hitems⟩ | ⟨entries, hlists⟩
    · rw [ofJson_of_missing hmissing] at h
      cases h
      exact .inl (.missing hmissing)
    · rw [ofJson_of_notList hfield hitems] at h
      cases h
      exact .inr (.notList rfl hfield hitems)
    · obtain ⟨front, entry, behind, found, rfl, hfront, hentry⟩ :=
        (ofJson_eq_error_of_lists hlists).mp h
      rcases hentry with hunknown | hmisshapen
      · exact .inl (.entry ⟨front, entry, behind, found, hlists, hfront, hunknown⟩)
      · exact .inr (.entry ⟨front, entry, behind, found, hlists, hfront, hmisshapen⟩)
  · rintro (hrejected | hmisshapen)
    · cases hrejected with
      | missing h => exact ofJson_of_missing h
      | entry h =>
        obtain ⟨front, entry, behind, found, hlists, hfront, hunknown⟩ := h
        exact (ofJson_eq_error_of_lists hlists).mpr
          ⟨front, entry, behind, found, rfl, hfront, .inl hunknown⟩
    · cases hmisshapen with
      | notList hdoc hfield h =>
        rw [hdoc]
        exact ofJson_of_notList hfield h
      | entry h =>
        obtain ⟨front, entry, behind, found, hlists, hfront, hentry⟩ := h
        exact (ofJson_eq_error_of_lists hlists).mpr
          ⟨front, entry, behind, found, rfl, hfront, .inr hentry⟩

end Program

end FlatCode
