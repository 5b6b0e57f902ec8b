import FlatCode.Proofs.Block.Likeness
import FlatCode.Proofs.Json.Decidable
import FlatCode.Proofs.Program.Provenance

/-!
# The structure of equal programs

Two programs count as the same if names and arguments agree; the facets of their operations are not
compared. So over a session the facets of equal programs agree as far as the registries did: a name
that has kept its block facets through all registries (`Steady`) has them wherever it stands, and a
name that has changed them can make equal programs of different structure.

* `steady_of_builtin`, `steady_of_keeps` — built-in names are steady, and all names are while the
  registry is only added to
* `exists_unlike` — a name that is not steady belongs to equal programs of different structure
* `same_programs_alike` — what equal programs of a session have in common
* `equal_programs_differ` — two programs that are equal, and only one is well formed
-/

namespace FlatCode

/-! ## Steady names -/

/-- Whether the registries that have a name agree about its block facets. -/
def Steady (history : List Registry) (name : Text) : Prop :=
  ∀ registry ∈ history, ∀ other ∈ history,
    ∀ op ∈ registry.find? name, ∀ op' ∈ other.find? name,
      op.blockBegin = op'.blockBegin ∧ op.blockEnd = op'.blockEnd

section Steady

variable {history : List Registry} {name : Text} {p q : Program} {a b : Instruction}

theorem Instruction.FoundIn.facets_eq (ha : a.FoundIn history) (hb : b.FoundIn history)
    (hname : a.name = b.name) (h : Steady history a.name) :
    a.operation.blockBegin = b.operation.blockBegin ∧
      a.operation.blockEnd = b.operation.blockEnd := by
  obtain ⟨registry, hregistry, hfound⟩ := ha
  obtain ⟨other, hother, hfound'⟩ := hb
  rw [← hname] at hfound'
  exact h registry hregistry other hother _ hfound _ hfound'

/-- Programs of the same names that are steady look alike. -/
theorem Program.FoundIn.alike (hp : p.FoundIn history) (hq : q.FoundIn history)
    (hnames : p.names = q.names) (h : ∀ name ∈ p.names, Steady history name) : p.Alike q := by
  have hlength : p.instructions.length = q.instructions.length := by
    simpa [names] using congrArg List.length hnames
  refine List.forall₂_iff_get.mpr ⟨hlength, fun n hn hn' => ?_⟩
  have hname : p.instructions[n].name = q.instructions[n].name := by
    have hat := congrArg (·[n]?) hnames
    simpa [names, hn, hn'] using hat
  have hmem := List.getElem_mem hn
  obtain ⟨hbegin, hend⟩ := (hp _ hmem).facets_eq (hq _ (List.getElem_mem hn')) hname
    (h _ (List.mem_map_of_mem hmem))
  refine ⟨hname, ?_⟩
  change Marker.ofFacets _ _ = Marker.ofFacets _ _
  rw [List.get_eq_getElem, List.get_eq_getElem, hbegin, hend]

/-! ### Names that are steady -/

variable {registry : Registry} {actions : List Action}

theorem Registry.mem_scanl_next (registry : Registry) (actions : List Action) :
    registry ∈ actions.scanl Registry.next registry := by
  cases actions with
  | nil => exact List.mem_cons_self
  | cons action actions =>
    rw [List.scanl_cons]
    exact List.mem_cons_self

/-- No action takes the built-in operations away. -/
theorem Registry.builtins_prefix_next (h : Operation.builtins <+: registry.entries)
    (action : Action) : Operation.builtins <+: (registry.next action).entries := by
  cases action with
  | register declaration reset =>
    have hbase : Operation.builtins <+: (if reset then builtin else registry).entries := by
      split
      · exact List.prefix_refl _
      · exact h
    change _ <+: (registry.register declaration reset).2.entries
    unfold register
    dsimp only
    split
    · exact hbase
    · exact hbase.trans (prefix_add _ _)
  | clear => exact List.prefix_refl _
  | _ => exact h

theorem Registry.builtins_prefix_of_mem (h : Operation.builtins <+: registry.entries)
    {other : Registry} (hother : other ∈ actions.scanl Registry.next registry) :
    Operation.builtins <+: other.entries := by
  induction actions generalizing registry with
  | nil =>
    rw [List.mem_singleton.mp hother]
    exact h
  | cons action actions ih =>
    rw [List.scanl_cons] at hother
    rcases List.mem_cons.mp hother with rfl | hother
    · exact h
    · exact ih (builtins_prefix_next h action) hother

/-- **Built-in names are steady.** -/
theorem steady_of_builtin {op : Operation} (hop : op ∈ Operation.builtins) :
    Steady (registriesOf actions) op.name := by
  have hfind {registry : Registry} (h : registry ∈ registriesOf actions) :
      registry.find? op.name = some op :=
    find?_of_builtin (Registry.builtins_prefix_of_mem (List.prefix_refl _) h) hop
  intro registry hregistry other hother op₁ h₁ op₂ h₂
  rw [Option.mem_def, hfind hregistry] at h₁
  rw [Option.mem_def, hfind hother] at h₂
  cases h₁
  cases h₂
  exact ⟨rfl, rfl⟩

/-- Whether an action leaves in the registry what is there. -/
def Action.keeps : Action → Bool
  | .register _ reset => !reset
  | .clear => false
  | _ => true

theorem Registry.prefix_next {action : Action} (h : action.keeps = true) (registry : Registry) :
    registry.entries <+: (registry.next action).entries := by
  cases action with
  | register declaration reset =>
    cases reset with
    | true => cases h
    | false => exact prefix_register registry declaration
  | clear => cases h
  | _ => exact List.prefix_refl _

/-- While nothing goes, all that was there is there at the end. -/
theorem Registry.prefix_foldl_of_mem (h : ∀ action ∈ actions, action.keeps = true)
    {other : Registry} (hother : other ∈ actions.scanl Registry.next registry) :
    other.entries <+: (actions.foldl Registry.next registry).entries := by
  induction actions generalizing registry other with
  | nil =>
    rw [List.mem_singleton.mp hother]
    exact List.prefix_refl _
  | cons action actions ih =>
    obtain ⟨hkeeps, hrest⟩ := List.forall_mem_cons.mp h
    rw [List.scanl_cons] at hother
    rcases List.mem_cons.mp hother with rfl | hother
    · exact (prefix_next hkeeps other).trans (ih hrest (mem_scanl_next _ actions))
    · exact ih hrest hother

/-- **While the registry is only added to, all names are steady.** -/
theorem steady_of_keeps (h : ∀ action ∈ actions, action.keeps = true) (name : Text) :
    Steady (registriesOf actions) name := by
  have hfinal {registry : Registry} (hregistry : registry ∈ registriesOf actions) {op : Operation}
      (hop : op ∈ registry.find? name) :
      (actions.foldl Registry.next .builtin).find? name = some op :=
    (Registry.prefix_foldl_of_mem h hregistry).find?_eq_some hop
  intro registry hregistry other hother op hop op' hop'
  cases (hfinal hregistry hop).symm.trans (hfinal hother hop')
  exact ⟨rfl, rfl⟩

/-! ### Names that are not -/

/-- Whether an action is about the registry. -/
def Action.registers : Action → Bool
  | .register .. | .clear => true
  | _ => false

/-- Builds a program of one instruction with a name. -/
def Action.probe (name : Text) : Action := .build [(name, [])]

/-- The actions about the registry, with a program of a name built in front of each of them and
behind the last. -/
def probed (name : Text) : List Action → List Action
  | [] => [.probe name]
  | action :: actions =>
    if action.registers then .probe name :: action :: probed name actions else probed name actions

theorem filter_probed (name : Text) (actions : List Action) :
    (probed name actions).filter Action.registers = actions.filter Action.registers := by
  induction actions with
  | nil => rfl
  | cons action actions ih =>
    rw [probed, List.filter_cons]
    split
    · next hregisters =>
      rw [List.filter_cons_of_neg (by simp [Action.probe, Action.registers]),
        List.filter_cons_of_pos hregisters, ih]
    · exact ih

namespace Workspace

variable {w : Workspace} {op : Operation}

theorem programsAfter_probe (h : w.registry.find? name = some op) :
    w.programsAfter (.probe name) = w.programs ++ [⟨[⟨op, []⟩]⟩] := by
  have hcalls : Program.ofCalls w.registry [(name, [])] = .ok ⟨[⟨op, []⟩]⟩ := by
    rw [Program.ofCalls, List.foldlM_cons, Program.emit, Instruction.ofName, Registry.lookup, h]
    rfl
  change w.hold (Program.ofCalls w.registry [(name, [])]).toOption = _
  rw [hcalls]
  rfl

theorem mem_programsAfter_probe (hp : p ∈ w.programs) : p ∈ w.programsAfter (.probe name) := by
  change p ∈ w.hold (Program.ofCalls w.registry [(name, [])]).toOption
  cases (Program.ofCalls w.registry [(name, [])]).toOption with
  | none => exact hp
  | some q => exact List.mem_append_left _ hp

theorem programsAfter_of_registers {action : Action} (h : action.registers = true) :
    w.programsAfter action = w.programs := by
  cases action with
  | register declaration reset => rfl
  | clear => rfl
  | _ => cases h

/-- Programs are not touched where only the registry changes and new programs are built. -/
theorem mem_after_probed (hp : p ∈ w.programs) : p ∈ (w.after (probed name actions)).programs := by
  induction actions generalizing w with
  | nil => exact mem_programsAfter_probe hp
  | cons action actions ih =>
    rw [probed]
    split
    · next hregisters =>
      refine @ih ((w.next (.probe name)).next action) ?_
      change p ∈ (w.next (.probe name)).programsAfter action
      rw [programsAfter_of_registers hregisters]
      exact mem_programsAfter_probe hp
    · exact ih hp

/-- Each operation that a name has in a registry of the session is that of a program. -/
theorem mem_after_probed_of_find? (hregistry : registry ∈ actions.scanl Registry.next w.registry)
    (hop : registry.find? name = some op) :
    ⟨[⟨op, []⟩]⟩ ∈ (w.after (probed name actions)).programs := by
  have hprobe {w : Workspace} (h : w.registry.find? name = some op) :
      ⟨[⟨op, []⟩]⟩ ∈ w.programsAfter (.probe name) := by
    rw [programsAfter_probe h]
    exact List.mem_append_right _ List.mem_cons_self
  induction actions generalizing w with
  | nil =>
    rw [List.mem_singleton.mp hregistry] at hop
    exact hprobe hop
  | cons action actions ih =>
    rw [List.scanl_cons] at hregistry
    rw [probed]
    split
    · next hregisters =>
      rcases List.mem_cons.mp hregistry with rfl | hregistry
      · refine @mem_after_probed _ _ actions ((w.next (.probe name)).next action) ?_
        change _ ∈ (w.next (.probe name)).programsAfter action
        rw [programsAfter_of_registers hregisters]
        exact hprobe hop
      · exact @ih ((w.next (.probe name)).next action) hregistry
    · next hregisters =>
      have hstays : w.registry.next action = w.registry := by
        cases action with
        | register declaration reset => exact absurd rfl hregisters
        | clear => exact absurd rfl hregisters
        | _ => rfl
      rw [hstays] at hregistry
      rcases List.mem_cons.mp hregistry with rfl | hregistry
      · exact ih (Registry.mem_scanl_next _ actions)
      · exact ih hregistry

end Workspace

/-- **A name that is not steady belongs to equal programs of different structure**, in a session
with the same actions about the registry. -/
theorem exists_unlike (h : ¬Steady (registriesOf actions) name) :
    ∃ others : List Action, others.filter Action.registers = actions.filter Action.registers ∧
      ∃ p ∈ (Workspace.fresh.after others).programs, ∃ q ∈ (Workspace.fresh.after others).programs,
        p.same q = true ∧ p.markers ≠ q.markers := by
  unfold Steady at h
  push Not at h
  obtain ⟨registry, hregistry, other, hother, op, hop, op', hop', hfacets⟩ := h
  refine ⟨probed name actions, filter_probed name actions,
    _, Workspace.mem_after_probed_of_find? hregistry hop,
    _, Workspace.mem_after_probed_of_find? hother hop', ?_, fun hmarkers => ?_⟩
  · have hnames : op.name = op'.name :=
      (Registry.find?_eq_some hop).1.trans (Registry.find?_eq_some hop').1.symm
    simp [Program.same, Program.size, Instruction.same, Instruction.name, hnames, Json.sameItems]
  · have hmarker : op.marker = op'.marker := (List.cons.inj hmarkers).1
    have hbegin := congrArg Marker.opens hmarker
    have hend := congrArg Marker.closes hmarker
    rw [Operation.marker, Operation.marker, Marker.opens_ofFacets, Marker.opens_ofFacets] at hbegin
    rw [Operation.marker, Operation.marker, Marker.closes_ofFacets, Marker.closes_ofFacets] at hend
    exact hfacets hbegin hend

end Steady

/-! ## Equal programs -/

/-- **Equal programs have the same structure as far as names are steady.** Whatever is registered,
cleared, built, read and edited, and whether it succeeds or not: programs that count as the same
have the same names, and the same block facets at each index whose name is steady. If all their
names are, the check, the depths and the groups are the same. Built-in names are steady, all names
are while the registry is only added to, and a name that is not makes the difference. -/
theorem same_programs_alike (actions : List Action) :
    let programs := (Workspace.fresh.after actions).programs
    let history := registriesOf actions
    (∀ p ∈ programs, ∀ q ∈ programs, p.same q = true →
      p.names = q.names ∧
      (∀ (n : Nat) (a b : Instruction), p.instructions[n]? = some a →
        q.instructions[n]? = some b → Steady history a.name →
          a.operation.blockBegin = b.operation.blockBegin ∧
            a.operation.blockEnd = b.operation.blockEnd) ∧
      ((∀ name ∈ p.names, Steady history name) →
        p.isWellFormed = q.isWellFormed ∧ p.depths = q.depths ∧
        p.groups.map (List.map BlockGroup.boundaries)
          = q.groups.map (List.map BlockGroup.boundaries) ∧
        ∀ start, p.groupBoundaries start = q.groupBoundaries start)) ∧
    (∀ op ∈ Operation.builtins, Steady history op.name) ∧
    ((∀ action ∈ actions, action.keeps = true) → ∀ name, Steady history name) ∧
    ∀ name, ¬Steady history name →
      ∃ others : List Action, others.filter Action.registers = actions.filter Action.registers ∧
        ∃ p ∈ (Workspace.fresh.after others).programs,
          ∃ q ∈ (Workspace.fresh.after others).programs,
            p.same q = true ∧ p.markers ≠ q.markers := by
  intro programs history
  have hfound : ∀ p ∈ programs, p.FoundIn history :=
    Workspace.foundIn_after (Registry.mem_scanl_next .builtin actions) (fun _ h => h)
      fun p hp => absurd hp List.not_mem_nil
  refine ⟨fun p hp q hq hsame => ?_, fun op => steady_of_builtin, steady_of_keeps,
    fun name => exists_unlike⟩
  have hnames := Program.names_of_same hsame
  refine ⟨hnames, fun n a b ha hb hsteady => ?_, fun hsteady => ?_⟩
  · have hname : a.name = b.name := by
      have hat := congrArg (·[n]?) hnames
      simpa [Program.names, ha, hb] using hat
    exact (hfound p hp a (List.mem_of_getElem? ha)).facets_eq
      (hfound q hq b (List.mem_of_getElem? hb)) hname hsteady
  · have halike := (hfound p hp).alike (hfound q hq) hnames hsteady
    exact ⟨halike.isWellFormed_eq, halike.depths_eq, halike.groups_eq, halike.groupBoundaries_eq⟩

/-- A session in which a name begins a block, and after clearing the registry does not. -/
def renewedScope : List Action :=
  [.register (.operation (.ofBegin "Scope")) false, .build [("Scope", [])], .clear,
    .register (.operation (.ofSimple "Scope")) false, .build [("Scope", [])]]

/-- **Equal programs may differ in structure**: the instruction that was built first still begins a
block. -/
theorem equal_programs_differ :
    ∃ p ∈ (Workspace.fresh.after renewedScope).programs,
      ∃ q ∈ (Workspace.fresh.after renewedScope).programs, p.same q = true ∧
        p.markers = [.groupBegin] ∧ q.markers = [.plain] ∧ p.isWellFormed = false ∧
        q.isWellFormed = true ∧ p.depths ≠ q.depths := by
  have hprograms : (Workspace.fresh.after renewedScope).programs
      = [⟨[⟨.ofBegin "Scope", []⟩]⟩, ⟨[⟨.ofSimple "Scope", []⟩]⟩] := by decide +kernel
  rw [hprograms]
  refine ⟨_, List.mem_cons_self, _, List.mem_cons_of_mem _ List.mem_cons_self, ?_⟩
  decide +kernel

/-- A session in which a name begins a block, also after clearing the registry, but is simple
then. -/
def keptScope : List Action :=
  [.register (.operation (.ofBegin "Scope")) false, .build [("Scope", []), ("EndIf", [])], .clear,
    .register (.operation { name := "Scope", blockBegin := true, simple := true }) false,
    .build [("Scope", []), ("EndIf", [])]]

theorem same_programs_alike_keptScope :
    ∃ p ∈ (Workspace.fresh.after keptScope).programs,
      ∃ q ∈ (Workspace.fresh.after keptScope).programs, p ≠ q ∧ p.same q = true ∧
        p.isWellFormed = q.isWellFormed ∧ p.depths = q.depths := by
  have hprograms : (Workspace.fresh.after keptScope).programs
      = [⟨[⟨.ofBegin "Scope", []⟩, ⟨.ofEnd "EndIf", []⟩]⟩,
        ⟨[⟨⟨"Scope", true, false, true⟩, []⟩, ⟨.ofEnd "EndIf", []⟩]⟩] := by decide +kernel
  have hsteady : ∀ name ∈ (["Scope", "EndIf"] : List Text),
      Steady (registriesOf keptScope) name := by
    unfold Steady
    decide +kernel
  obtain ⟨halike, -⟩ := same_programs_alike keptScope
  rw [hprograms] at halike ⊢
  refine ⟨_, List.mem_cons_self, _, List.mem_cons_of_mem _ List.mem_cons_self, by decide +kernel,
    by decide +kernel, ?_⟩
  obtain ⟨-, -, hstructure⟩ := halike _ List.mem_cons_self _
    (List.mem_cons_of_mem _ List.mem_cons_self) (by decide +kernel)
  obtain ⟨hwell, hdepths, -⟩ := hstructure hsteady
  exact ⟨hwell, hdepths⟩

end FlatCode
