import FlatCode.Proofs.Operation.Lookup
import FlatCode.Proofs.Text.Lines

/-!
# What registering keeps

Operations come into a registry in many forms, but each of them goes through one check of its name
(`Operation.declare`). So every declared operation is well named, and a registry stays sound: the
built-in operations come first, no name is taken twice, and all names are well formed. Registering
adds at the end and never touches what is there, whether it succeeds or stops midway.

* `wellNamed_operations` — what a declaration declares is well named
* `Registry.prefix_register` — registering leaves what is there in its place
* `Registry.Sound.register` — registering keeps a registry sound
-/

namespace FlatCode

open Text

/-! ## Names -/

/-- Whether the name of an operation starts with a letter and has no blanks at its ends. -/
structure Operation.WellNamed (op : Operation) : Prop where
  letter : op.name.head?.any isLetter = true
  trimmed : trim op.name = op.name

instance (op : Operation) : Decidable op.WellNamed :=
  decidable_of_iff (_ ∧ _) ⟨fun h => ⟨h.1, h.2⟩, fun h => ⟨h.1, h.2⟩⟩

theorem Operation.wellNamed_builtins : ∀ op ∈ builtins, op.WellNamed := by decide +kernel

/-- **A declared operation is well named.** -/
theorem Operation.wellNamed_declare {name : Text} {blockBegin blockEnd simple : Bool}
    {op : Operation} (h : declare name blockBegin blockEnd simple = .ok op) : op.WellNamed := by
  unfold declare at h
  split at h
  · cases h
  · next c rest htrim =>
    split at h
    · next hletter =>
      cases h
      refine ⟨by simpa using hletter, ?_⟩
      rw [← htrim, trim_trim]
    · cases h

/-! ## Declarations -/

/-- Whether all operations of a result are well named, if there is one. -/
def AllWellNamed (result : Except DeclarationError (List Operation)) : Prop :=
  ∀ ops, result = .ok ops → ∀ op ∈ ops, op.WellNamed

theorem allWellNamed_error (e : DeclarationError) : AllWellNamed (.error e) := nofun

theorem allWellNamed_ok {ops : List Operation} (h : ∀ op ∈ ops, op.WellNamed) :
    AllWellNamed (.ok ops) := by
  rintro _ ⟨⟩
  exact h

theorem allWellNamed_append {ops more : List Operation} (h : AllWellNamed (.ok ops))
    (hmore : AllWellNamed (.ok more)) : AllWellNamed (.ok (ops ++ more)) :=
  allWellNamed_ok (List.forall_mem_append.mpr ⟨h ops rfl, hmore more rfl⟩)

theorem Operation.wellNamed_ofValues {name blockBegin blockEnd simple : Json} {op : Operation}
    (h : ofValues name blockBegin blockEnd simple = .ok op) : op.WellNamed := by
  unfold ofValues at h
  split at h
  · exact wellNamed_declare h
  · cases h

/-- An object declares at most one operation. -/
theorem Operation.allWellNamed_ofFields (fields : List (Text × Json)) :
    AllWellNamed ((ofFields fields).map fun op => [op]) := by
  cases hop : ofFields fields with
  | error e => exact allWellNamed_error e
  | ok op =>
    refine allWellNamed_ok ?_
    simpa using wellNamed_ofValues hop

theorem Operation.wellNamed_ofEntry {entry : Text} {op : Operation}
    (h : ofEntry entry = .ok op) : op.WellNamed := by
  unfold ofEntry at h
  split at h
  · cases h
  · dsimp only at h
    split at h
    · cases h
    · exact wellNamed_declare h

theorem Operation.allWellNamed_ofSchema (schema : Text) : AllWellNamed (ofSchema schema) := by
  unfold ofSchema
  induction schemaEntries schema with
  | nil => exact allWellNamed_ok (by simp)
  | cons entry entries ih =>
    rw [List.mapM_cons]
    cases hop : ofEntry entry with
    | error e => exact allWellNamed_error e
    | ok op =>
      cases hops : entries.mapM ofEntry with
      | error e => exact allWellNamed_error e
      | ok ops =>
        exact allWellNamed_ok (List.forall_mem_cons.mpr ⟨wellNamed_ofEntry hop, ih ops hops⟩)

/-- The operations that a value or a list of values declares are well named. -/
theorem allWellNamed_operationsOfJson : (∀ value, AllWellNamed (operationsOfJson value)) ∧
    ∀ items, AllWellNamed (operationsOfItems items) := by
  apply operationsOfJson.mutual_induct (fun value => AllWellNamed (operationsOfJson value))
    (fun items => AllWellNamed (operationsOfItems items))
  case case1 =>
    rw [operationsOfJson]
    exact allWellNamed_ok (by simp)
  case case2 | case3 | case4 =>
    intro scalar
    rw [operationsOfJson]
    exact allWellNamed_error _
  case case5 =>
    intro s hjson e hread
    rw [operationsOfJson, if_pos hjson]
    split
    · exact allWellNamed_error _
    · next hread' => rw [hread] at hread'; cases hread'
  case case6 =>
    intro s hjson decoded hread ih
    rw [operationsOfJson, if_pos hjson]
    split
    · exact allWellNamed_error _
    · next hread' =>
      rw [hread] at hread'
      cases hread'
      exact ih
  case case7 =>
    intro s hschema
    rw [operationsOfJson, if_neg hschema]
    exact Operation.allWellNamed_ofSchema _
  case case8 =>
    intro items ih
    rw [operationsOfJson]
    exact ih
  case case9 =>
    intro fields items hfield ih
    rw [operationsOfJson]
    split
    · next hfield' =>
      rw [hfield] at hfield'
      cases hfield'
      exact ih
    · exact Operation.allWellNamed_ofFields fields
  case case10 =>
    intro fields hfield
    rw [operationsOfJson]
    split
    · next hfield' => exact absurd hfield' (hfield _)
    · exact Operation.allWellNamed_ofFields fields
  case case11 =>
    rw [operationsOfItems]
    exact allWellNamed_ok (by simp)
  case case12 =>
    intro item rest e hitem _
    rw [operationsOfItems, hitem]
    exact allWellNamed_error e
  case case13 =>
    intro item rest ops hitem e hrest _ _
    rw [operationsOfItems, hitem, hrest]
    exact allWellNamed_error e
  case case14 =>
    intro item rest ops hitem more hrest hops hmore
    rw [hitem] at hops
    rw [hrest] at hmore
    rw [operationsOfItems, hitem, hrest]
    exact allWellNamed_append hops hmore

/-- Whether an operation is one that has been declared. -/
def Operation.Declared (op : Operation) : Prop :=
  ∃ name blockBegin blockEnd simple, declare name blockBegin blockEnd simple = .ok op

mutual

/-- Whether the operations of a declaration that are given as operations have been declared. -/
def Declaration.Declared : Declaration → Prop
  | .operation op => op.Declared
  | .value _ => True
  | .list items => Declaration.AllDeclared items

/-- Whether this holds of all declarations of a list. -/
def Declaration.AllDeclared : List Declaration → Prop
  | [] => True
  | item :: rest => item.Declared ∧ Declaration.AllDeclared rest

end

mutual

/-- **What a declaration declares is well named.** -/
theorem wellNamed_operations : ∀ {declaration : Declaration}, declaration.Declared →
    AllWellNamed declaration.operations
  | .operation op, h => by
    rw [Declaration.Declared] at h
    obtain ⟨name, blockBegin, blockEnd, simple, hop⟩ := h
    exact allWellNamed_ok (by simpa using Operation.wellNamed_declare hop)
  | .value json, _ => allWellNamed_operationsOfJson.1 json
  | .list items, h => by
    rw [Declaration.Declared] at h
    exact wellNamed_allOperations h

theorem wellNamed_allOperations : ∀ {items : List Declaration}, Declaration.AllDeclared items →
    AllWellNamed (Declaration.allOperations items)
  | [], _ => allWellNamed_ok (by simp)
  | item :: rest, h => by
    rw [Declaration.AllDeclared] at h
    have hitem := wellNamed_operations h.1
    have hrest := wellNamed_allOperations h.2
    unfold Declaration.allOperations
    cases hops : item.operations with
    | error e => exact allWellNamed_error e
    | ok ops =>
      cases hmore : Declaration.allOperations rest with
      | error e => exact allWellNamed_error e
      | ok more =>
        rw [hops] at hitem
        rw [hmore] at hrest
        exact allWellNamed_append hitem hrest

end

/-! ## Registries -/

namespace Registry

/-- Whether a registry holds the built-in operations first, each name once, and well-formed names
only. -/
structure Sound (registry : Registry) : Prop where
  builtins : Operation.builtins <+: registry.entries
  distinct : (registry.entries.map Operation.name).Nodup
  wellNamed : ∀ op ∈ registry.entries, op.WellNamed

theorem sound_builtin : builtin.Sound :=
  ⟨List.prefix_refl _, by decide +kernel, Operation.wellNamed_builtins⟩

variable {registry : Registry}

theorem not_mem_of_find?_eq_none {name : Text} (h : registry.find? name = none) :
    name ∉ registry.entries.map Operation.name := by
  intro hmem
  obtain ⟨op, hop, rfl⟩ := List.mem_map.mp hmem
  exact absurd (List.find?_eq_none.mp h op hop) (by simp)

/-- Adding leaves what is there in its place, also if it stops midway. -/
theorem prefix_add (registry : Registry) (ops : List Operation) :
    registry.entries <+: (registry.add ops).2.entries := by
  induction ops generalizing registry with
  | nil => exact List.prefix_refl _
  | cons op ops ih =>
    unfold add
    split
    · exact List.prefix_refl _
    · exact (List.prefix_append _ _).trans (ih (registry.push op))

/-- **Registering leaves what is there in its place**, whether it succeeds or not. -/
theorem prefix_register (registry : Registry) (declaration : Declaration) :
    registry.entries <+: (registry.register declaration false).2.entries := by
  unfold register
  dsimp only
  split
  · exact List.prefix_refl _
  · exact prefix_add registry _

namespace Sound

theorem push (h : registry.Sound) {op : Operation} (hop : op.WellNamed)
    (hnew : registry.find? op.name = none) : (registry.push op).Sound := by
  refine ⟨h.builtins.trans (List.prefix_append _ _), ?_, ?_⟩
  · unfold Registry.push
    rw [List.map_append, List.map_singleton, List.nodup_append]
    refine ⟨h.distinct, by simp, fun name hname other hother => ?_⟩
    rw [List.mem_singleton.mp hother]
    rintro rfl
    exact not_mem_of_find?_eq_none hnew hname
  · exact List.forall_mem_append.mpr ⟨h.wellNamed, by simpa using hop⟩

theorem add (h : registry.Sound) {ops : List Operation} (hops : ∀ op ∈ ops, op.WellNamed) :
    (registry.add ops).2.Sound := by
  induction ops generalizing registry with
  | nil => exact h
  | cons op ops ih =>
    obtain ⟨hop, hops⟩ := List.forall_mem_cons.mp hops
    unfold Registry.add
    split
    · exact h
    · next hnew => exact ih (h.push hop hnew) hops

/-- **Registering keeps a registry sound**, with or without going back to the built-in operations
first, and whether it succeeds or not. -/
theorem register (h : registry.Sound) {declaration : Declaration} (hdeclared : declaration.Declared)
    (reset : Bool) : (registry.register declaration reset).2.Sound := by
  have hbase : (if reset then builtin else registry).Sound := by
    split
    · exact sound_builtin
    · exact h
  unfold Registry.register
  dsimp only
  split
  · exact hbase
  · next ops hops => exact hbase.add (wellNamed_operations hdeclared ops hops)

/-- A built-in name stands for its built-in operation. -/
theorem find?_eq (h : registry.Sound) {op : Operation} (hop : op ∈ Operation.builtins) :
    registry.find? op.name = some op :=
  find?_of_builtin h.builtins hop

end Sound

end Registry

end FlatCode
