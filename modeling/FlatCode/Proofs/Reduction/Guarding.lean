import FlatCode.Proofs.Reduction.GroupPass
import FlatCode.Proofs.Reduction.Safety

/-!
# Guards that never reject

The candidates of a reduction are well formed if the program is: the reducer of groups removes whole
groups, and the reducer of instructions removes no marker. So a guard never rejects one, and a
reduction behind a guard is the reduction without it (`minimize_guarded`).

* `Ahead.removable_range`, `Ahead.removable_boundaries` — the two candidates of a visit
* `minimize_guarded` — the guard makes no difference to a reduction
* `groupPass_wellFormed` — each visit of the reducer of groups, and whole reductions
-/

namespace FlatCode

variable {σ ε : Type}

/-! ## The candidates of a visit -/

/-- Whether removing the live ones of some instructions makes a well-formed candidate. -/
def Program.Removable (program : Program) (indices : List Int) : Prop :=
  ∃ targets candidate, program.remaining? indices = some targets ∧ targets ≠ [] ∧
    program.nopAll targets = .ok candidate ∧ candidate.isWellFormed = true

section Visit

variable {program : Program} {bs : List Nat} {rest : List (List Nat)}

theorem Program.removable_of_isWellFormed {indices : List Int}
    (hindices : program.HasIndices indices) (hlive : ∃ idx ∈ indices, program.isLive idx = true)
    (hwell : (program.clear indices).isWellFormed = true) : program.Removable indices := by
  refine ⟨_, _, exists_remaining? hindices, ?_, nopAll_filter_isLive hindices, hwell⟩
  obtain ⟨idx, hidx, hlive⟩ := hlive
  exact List.ne_nil_of_mem (List.mem_filter.mpr ⟨hidx, hlive⟩)

theorem Ahead.removable_range (h : Ahead program (bs :: rest)) (other : Program) :
    program.Removable (groupOf other bs).range := by
  obtain ⟨head, tail, hlisted⟩ := h.exists_listed
  have hle := (hlisted.within head hlisted.head_mem).2
  refine Program.removable_of_isWellFormed (hlisted.hasIndices_range other)
    ⟨head, ?_, hlisted.isLive_of_mem h.registered hlisted.head_mem⟩
    (h.clear_range other).isWellFormed
  rw [hlisted.mem_range]
  omega

theorem Ahead.removable_boundaries (h : Ahead program (bs :: rest)) (other : Program) :
    program.Removable (groupOf other bs).boundaries := by
  obtain ⟨head, tail, hlisted⟩ := h.exists_listed
  exact Program.removable_of_isWellFormed (hlisted.hasIndices_boundaries other)
    ⟨head, List.mem_map_of_mem hlisted.head_mem,
      hlisted.isLive_of_mem h.registered hlisted.head_mem⟩
    (h.clear_boundaries other).isWellFormed

end Visit

/-! ## Instructions that are no markers -/

/-- Whether the instructions are registered, and no marker is simple. -/
structure Program.Reducible (program : Program) : Prop where
  registered : program.Registered
  apart : ∀ instr ∈ program.instructions, instr.operation.simple = true → instr.marker = .plain

theorem Marker.eq_plain_of_not_marks {m : Marker} (h : ¬m.marks = true) : m = .plain := by
  cases m with
  | plain => rfl
  | groupBegin => exact absurd rfl h
  | divider => exact absurd rfl h
  | groupEnd => exact absurd rfl h

theorem Program.reducible_of_apart {program : Program} (hregistered : program.Registered)
    (hapart : ∀ instr ∈ program.instructions, ¬(instr.operation.simple = true ∧
      (instr.operation.blockBegin = true ∨ instr.operation.blockEnd = true))) :
    program.Reducible := by
  refine ⟨hregistered, fun instr hinstr hsimple => Marker.eq_plain_of_not_marks fun hmarks => ?_⟩
  exact hapart instr hinstr ⟨hsimple, Operation.marks_iff.mp hmarks⟩

theorem Program.Reducible.clear {program : Program} (h : program.Reducible) (indices : List Int) :
    (program.clear indices).Reducible := by
  refine ⟨h.registered.clear indices, fun instr hinstr hsimple => ?_⟩
  obtain ⟨n, hn⟩ := List.mem_iff_getElem?.mp hinstr
  rw [instructions_clear] at hn
  obtain ⟨before, hbefore, rfl⟩ := Option.map_eq_some_iff.mp hn
  by_cases hremoved : (n : Int) ∈ indices ∧ before.isNop = false
  · rw [if_pos hremoved]
    rfl
  · rw [if_neg hremoved] at hsimple ⊢
    exact h.apart before (List.mem_of_getElem? hbefore) hsimple

/-- Removing what is no marker leaves the markers. -/
theorem Program.markers_clear_of_plain {program : Program} {indices : List Int}
    (h : ∀ (n : Nat) (instr : Instruction), (n : Int) ∈ indices →
      program.instructions[n]? = some instr → instr.marker = .plain) :
    (program.clear indices).markers = program.markers := by
  refine List.ext_getElem? fun n => ?_
  rw [markers, markers, List.getElem?_map, List.getElem?_map, instructions_clear]
  cases hinstr : program.instructions[n]? with
  | none => rfl
  | some instr =>
    simp only [Option.map_some, Option.some.injEq]
    by_cases hremoved : (n : Int) ∈ indices ∧ instr.isNop = false
    · rw [if_pos hremoved, h n instr hremoved.1 hinstr]
      rfl
    · rw [if_neg hremoved]

theorem isWellFormed_of_markers {p q : Program} (h : q.markers = p.markers)
    (hp : p.isWellFormed = true) : q.isWellFormed = true := by
  rw [Program.isWellFormed_iff_balanced] at hp ⊢
  rwa [h]

/-- Removing an instruction that the reducer tries leaves the markers. -/
theorem Program.Reducible.markers_clear_candidate {program : Program} (h : program.Reducible)
    {n : Nat} {instr : Instruction} (hinstr : program.instructions[n]? = some instr)
    (hcandidate : instr.isCandidate = true) :
    (program.clear [(n : Int)]).markers = program.markers := by
  refine markers_clear_of_plain fun m other hm hother => ?_
  obtain rfl := Int.ofNat.inj (List.mem_singleton.mp hm)
  rw [hinstr] at hother
  cases hother
  exact h.apart instr (List.mem_of_getElem? hinstr) (Instruction.isCandidate_iff.mp hcandidate).1

/-! ## Reductions behind a guard -/

/-- Whether a program is well formed, and its instructions are as reducers expect them. -/
structure Program.Sound (program : Program) : Prop extends program.Reducible where
  isWellFormed : program.isWellFormed = true

section Guarded

variable {oracle : Oracle σ ε} {run : Run σ}

/-- A guard makes no difference to the reducer of instructions, and the program stays sound. -/
theorem removeInstructions_guarded (hleaves : oracle.LeavesProgram) (required : Bool) (n : Nat)
    (h : run.program.Sound) :
    removeInstructions (oracle.guarded required) n run = removeInstructions oracle n run ∧
      (removeInstructions oracle n run).2.program.Sound := by
  induction n generalizing run with
  | zero => exact ⟨rfl, h⟩
  | succ idx ih =>
    rw [removeInstructions, removeInstructions]
    cases hinstr : run.program.instructions[idx]? with
    | none => exact ⟨rfl, h⟩
    | some instr =>
      by_cases hcandidate : instr.isCandidate = true
      · have hwell := isWellFormed_of_markers (h.markers_clear_candidate hinstr hcandidate)
          h.isWellFormed
        simp only [hcandidate, if_true, attemptOne, attempt_guarded hwell]
        rcases hattempt : attempt oracle [(idx : Int)] run with ⟨answer, after⟩
        have hafter : after.program.Sound := by
          rw [program_of_attempt hleaves hattempt]
          split
          · exact ⟨h.toReducible.clear _, hwell⟩
          · exact h
        cases answer with
        | error e => exact ⟨rfl, hafter⟩
        | ok removed => exact ih hafter
      · simp only [hcandidate]
        exact ih h

/-- A guard makes no difference to a reducer, and the program stays sound. -/
theorem reduce_guarded (hleaves : oracle.LeavesProgram) (required : Bool) (reducer : Reducer)
    (h : run.program.Sound) :
    reducer.reduce (oracle.guarded required) run = reducer.reduce oracle run ∧
      (reducer.reduce oracle run).2.program.Sound := by
  cases reducer with
  | instructions => exact removeInstructions_guarded hleaves required _ h
  | groups =>
    obtain ⟨lists, hlists⟩ := exists_boundaryLists_iff.mpr h.isWellFormed
    have hahead := Ahead.start h.registered hlists
    have hkeeps : Keeps (fun run => run.program.Reducible) (Reducer.groups.reduce oracle) := by
      refine reduce_keeps (fun _ _ hrun => hrun) (fun indices run hrun => ?_) .groups
      rcases hattempt : attempt oracle indices run with ⟨answer, after⟩
      dsimp only
      rw [program_of_attempt hleaves hattempt]
      split
      · exact hrun.clear indices
      · exact hrun
    have hreducible := hkeeps run h.toReducible
    rw [Reducer.reduce, groups_of_boundaryLists hlists] at hreducible
    rw [Reducer.reduce, Reducer.reduce, groups_of_boundaryLists hlists]
    exact ⟨removeGroups_guarded hleaves _ hahead required,
      hreducible, isWellFormed_removeGroups hleaves _ hahead⟩

/-- **A guard makes no difference to a reduction.** -/
theorem minimize_guarded (hleaves : oracle.LeavesProgram) (required : Bool)
    (reducers : List Reducer) (maxRounds : Int) (h : run.program.Sound) :
    minimize (oracle.guarded required) reducers maxRounds run
      = minimize oracle reducers maxRounds run := by
  have halike : Alike fun run run' : Run σ => run = run' ∧ run.program.Sound :=
    alike_self fun _ _ hrun => hrun
  have hreducers : ∀ reducer ∈ reducers,
      InStep (fun run run' : Run σ => run = run' ∧ run.program.Sound)
        (reducer.reduce (oracle.guarded required)) (reducer.reduce oracle) := by
    rintro reducer - run _ ⟨rfl, hsound⟩
    obtain ⟨heq, hkept⟩ := reduce_guarded hleaves required reducer hsound
    rw [heq]
    exact ⟨rfl, rfl, hkept⟩
  obtain ⟨hresult, hafter, -⟩ := minimize_inStep halike hreducers maxRounds run run ⟨rfl, h⟩
  exact Prod.ext hresult hafter

end Guarded

/-- **The reducer of groups never leaves the well-formed programs.** Each group that it visits is
still a group of the program, with the boundaries that it had at the start; both candidates of the
visit are well formed, and no group is passed over. So it makes no difference to a whole reduction,
nor to what is asked in it, whether candidates have to be well formed. -/
theorem groupPass_wellFormed {oracle : Oracle σ ε} (h : oracle.LeavesProgram) {run : Run σ}
    (hwell : run.program.isWellFormed = true) (hregistered : run.program.Registered) :
    (∃ gs, run.program.groups = .ok gs ∧
      ∀ visited group rest now, gs = visited ++ group :: rest →
        removeGroups oracle visited run = (.ok (), now) →
        Reducer.groups.reduce oracle run = removeGroups oracle (group :: rest) now ∧
        now.program.HasFacet group.head .groupBegin ∧
        (now.program.groupBoundaries group.head).map (List.map fun n : Nat => (n : Int))
          = .ok group.boundaries ∧
        now.program.Removable group.range ∧
        ∀ next, attempt oracle group.range now = (.ok false, next) →
          next.program = now.program ∧ next.program.Removable group.boundaries) ∧
    ∀ (reducers : List Reducer) (maxRounds : Int),
      (∀ instr ∈ run.program.instructions, ¬(instr.operation.simple = true ∧
        (instr.operation.blockBegin = true ∨ instr.operation.blockEnd = true))) →
      minimize (oracle.guarded true) reducers maxRounds run
        = minimize (oracle.guarded false) reducers maxRounds run ∧
      minimize (oracle.recorded.guarded true) reducers maxRounds
          (run.mapState fun state => (state, []))
        = minimize (oracle.recorded.guarded false) reducers maxRounds
          (run.mapState fun state => (state, [])) := by
  obtain ⟨lists, hlists⟩ := exists_boundaryLists_iff.mpr hwell
  refine ⟨⟨_, groups_of_boundaryLists hlists, ?_⟩, ?_⟩
  · intro visited group rest now hsplit hvisits
    obtain ⟨front, back, rfl, rfl, hback⟩ := List.map_eq_append_iff.mp hsplit
    obtain ⟨bs, later, rfl, rfl, rfl⟩ := List.map_eq_cons_iff.mp hback
    have hahead := removeGroups_ahead h run.program (Ahead.start hregistered hlists) hvisits
    obtain ⟨head, tail, hlisted⟩ := hahead.exists_listed
    refine ⟨?_, ?_, ?_, hahead.removable_range run.program, ?_⟩
    · rw [Reducer.reduce, groups_of_boundaryLists hlists]
      dsimp only
      rw [hsplit, removeGroups_append, hvisits]
    · rw [hlisted.head_groupOf]
      exact hlisted.hasFacet
    · rw [hlisted.head_groupOf, hlisted.collected]
      rfl
    · intro next hrejected
      have hprogram : next.program = now.program := program_of_attempt h hrejected
      refine ⟨hprogram, ?_⟩
      rw [hprogram]
      exact hahead.removable_boundaries run.program
  · intro reducers maxRounds hapart
    have hsound : run.program.Sound := ⟨Program.reducible_of_apart hregistered hapart, hwell⟩
    constructor
    · rw [minimize_guarded h true _ _ hsound, minimize_guarded h false _ _ hsound]
    · rw [minimize_guarded h.recorded true _ _ hsound, minimize_guarded h.recorded false _ _ hsound]

/-- An oracle that rejects and accepts in turn: of the branch only the boundaries are removed,
before the loop around it is visited. -/
theorem groupPass_inTurn :
    let nested : Program := ⟨[⟨.ofBegin "BeginWhileLoop", []⟩, ⟨.ofBegin "BeginIf", []⟩,
      ⟨.ofSimple "LoadInteger", [.int 1]⟩, ⟨.ofDivider "BeginElse", []⟩, ⟨.ofEnd "EndIf", []⟩,
      ⟨.ofEnd "EndWhileLoop", []⟩]⟩
    let oracle : Oracle Nat String :=
      ⟨fun _ state current => (.ok (state % 2 == 1), state + 1, current)⟩
    oracle.LeavesProgram ∧ nested.isWellFormed = true ∧ nested.Registered ∧
      (∃ now, removeGroups oracle [groupOf nested [1, 3, 4]] { program := nested, state := 0 }
          = (.ok (), now) ∧
        now.program.names = ["BeginWhileLoop", "Nop", "LoadInteger", "Nop", "Nop", "EndWhileLoop"] ∧
        now.program.HasFacet 0 .groupBegin ∧ now.program.Removable [0, 1, 2, 3, 4, 5]) ∧
      minimize (oracle.guarded true) Reducer.standard 3 { program := nested, state := 0 }
        = minimize (oracle.guarded false) Reducer.standard 3 { program := nested, state := 0 } := by
  intro nested oracle
  have hleaves : oracle.LeavesProgram := fun _ _ _ => rfl
  have hregistered : nested.Registered := by
    intro instr hinstr
    have hbuiltin : instr.operation ∈ Operation.builtins := by
      revert instr
      decide
    exact Instruction.registered_of_builtin hbuiltin instr.args
  let run : Run Nat := { program := nested, state := 0 }
  have hwell : run.program.isWellFormed = true := by decide
  obtain ⟨⟨gs, hgs, hvisits⟩, hguard⟩ := groupPass_wellFormed hleaves hwell hregistered
  have hlisted : nested.groups = .ok [groupOf nested [1, 3, 4], groupOf nested [0, 5]] := rfl
  rw [hlisted] at hgs
  cases hgs
  obtain ⟨-, hbegin, -, hremovable, -⟩ := hvisits [_] _ [] _ rfl rfl
  refine ⟨hleaves, by decide, hregistered, ⟨_, rfl, rfl, hbegin, hremovable⟩, ?_⟩
  exact (hguard _ _ (by decide)).1

end FlatCode
