import FlatCode.Proofs.Reduction.Counting
import FlatCode.Proofs.Reduction.GroupPass

/-!
# Passes that accept nothing

An oracle may go by the candidate alone (`Oracle.GoesBy`). Then whether a step of a reduction
accepts nothing (`Quiet`) is a matter of the program: nothing is accepted in a sequence of steps if
each of them, asked about this same program, accepts nothing. So a round accepts nothing exactly
where its reducers have nothing left to remove (`Reducer.Spent`), whatever was tried in which order.

* `quiet_andThen_iff` — two steps in turn accept nothing if neither does
* `attempt_quiet_iff` — an attempt accepts nothing where the removal is refused
* `runReducers_quiet_iff` — a round accepts nothing where all its reducers are spent
-/

namespace FlatCode

variable {σ ε α β : Type}

/-! ## Oracles that go by the candidate -/

/-- Whether an oracle answers by the candidate alone, and never edits the program. -/
def Oracle.GoesBy (oracle : Oracle σ ε) (verdict : Program → Except ε Bool) : Prop :=
  ∀ candidate state current, ∃ next,
    oracle.judge candidate state current = (verdict candidate, next, current)

section GoesBy

variable {oracle : Oracle σ ε} {verdict : Program → Except ε Bool}

theorem Oracle.GoesBy.leavesProgram (h : oracle.GoesBy verdict) : oracle.LeavesProgram := by
  intro candidate state current
  obtain ⟨next, hjudge⟩ := h candidate state current
  rw [hjudge]

theorem Oracle.GoesBy.answer_eq (h : oracle.GoesBy verdict) {candidate current program : Program}
    {state next : σ} {answer : Except ε Bool}
    (hjudge : oracle.judge candidate state current = (answer, next, program)) :
    verdict candidate = answer := by
  obtain ⟨_, hverdict⟩ := h candidate state current
  rw [hjudge] at hverdict
  exact (congrArg Prod.fst hverdict).symm

theorem Oracle.goesBy_ofPredicate (accepts : Program → Bool) :
    (ofPredicate accepts : Oracle σ ε).GoesBy fun candidate => .ok (accepts candidate) :=
  fun _ state _ => ⟨state, rfl⟩

/-- Behind a guard the oracle of a predicate still goes by the candidate. -/
theorem Oracle.GoesBy.guarded {accepts : Program → Bool}
    (h : oracle.GoesBy fun candidate => .ok (accepts candidate)) (required : Bool) :
    (oracle.guarded required).GoesBy fun candidate =>
      .ok ((!required || candidate.isWellFormed) && accepts candidate) := by
  intro candidate state current
  obtain ⟨next, hjudge⟩ := h candidate state current
  unfold Oracle.guarded
  dsimp only
  cases required with
  | false => exact ⟨next, hjudge⟩
  | true =>
    cases hwell : candidate.isWellFormed with
    | false => exact ⟨state, rfl⟩
    | true => exact ⟨next, hjudge⟩

end GoesBy

/-! ## Steps in turn -/

/-- One step and then another, which may go by the answer of the first. -/
def andThen (first : Step σ ε α) (next : α → Step σ ε β) : Step σ ε β := fun run =>
  match first run with
  | (.error e, after) => (.error e, after)
  | (.ok a, after) => next a after

/-- Whether a step counts what it accepts, and does nothing else to the program. -/
def Counts (step : Step σ ε α) : Prop := ∀ start, Keeps (Counted start) step

/-- The step that does nothing. -/
def pass : Step σ ε Unit := fun run => (.ok (), run)

/-- Whether a step answers and accepts nothing. -/
def Quiet (step : Step σ ε α) (run : Run σ) : Prop :=
  ∃ a after, step run = (.ok a, after) ∧ after.accepted = run.accepted

section Quiet

variable {step step' : Step σ ε α} {first : Step σ ε α} {next : α → Step σ ε β}
  {run after : Run σ} {a : α}

theorem Counts.counted (h : Counts step) (run : Run σ) : Counted run (step run).2 :=
  h run run (.refl run)

theorem Counts.andThen (hfirst : Counts first) (hnext : ∀ a, Counts (next a)) :
    Counts (andThen first next) := by
  intro start run hrun
  have hnow := hfirst start run hrun
  unfold FlatCode.andThen
  rcases hstep : first run with ⟨answer, now⟩
  rw [hstep] at hnow
  cases answer with
  | error e => exact hnow
  | ok a => exact hnext a start now hnow

/-- What fails as the first of two steps, and else goes on as the second, is one and the other in
turn. -/
theorem eq_andThen {result : Except (ReductionError ε) β × Run σ}
    (herror : ∀ e after, first run = (.error e, after) → result = (.error e, after))
    (hok : ∀ a after, first run = (.ok a, after) → result = next a after) :
    result = andThen first next run := by
  unfold FlatCode.andThen
  rcases hstep : first run with ⟨answer, after⟩
  cases answer with
  | error e => exact herror e after hstep
  | ok a => exact hok a after hstep

theorem pass_counts : Counts (pass : Step σ ε Unit) := fun _ _ hrun => hrun

theorem quiet_pass (run : Run σ) : Quiet (pass : Step σ ε Unit) run := ⟨(), run, rfl, rfl⟩

theorem quiet_congr (h : step run = step' run) : Quiet step run ↔ Quiet step' run := by
  unfold Quiet
  rw [h]

/-- A step that accepts nothing leaves the program. -/
theorem Counts.program_eq (h : Counts step) (hstep : step run = (.ok a, after))
    (haccepted : after.accepted = run.accepted) : after.program = run.program := by
  have hcounted := h.counted run
  rw [hstep] at hcounted
  exact hcounted.unchanged haccepted

/-- **Two steps in turn accept nothing if neither does.** -/
theorem quiet_andThen_iff (hfirst : Counts first) (hnext : ∀ a, Counts (next a)) :
    Quiet (andThen first next) run ↔
      ∃ a now, first run = (.ok a, now) ∧ now.accepted = run.accepted ∧ Quiet (next a) now := by
  have hcounted := hfirst.counted run
  unfold Quiet FlatCode.andThen
  rcases hstep : first run with ⟨answer, now⟩
  rw [hstep] at hcounted
  have hle : run.accepted ≤ now.accepted := hcounted.accepted_le
  cases answer with
  | error e => simp
  | ok a =>
    dsimp only
    constructor
    · rintro ⟨b, after, hafter, haccepted⟩
      -- the count never falls, so it is the same in between
      have hlater := (hnext a).counted now
      rw [hafter] at hlater
      have hle' : now.accepted ≤ after.accepted := hlater.accepted_le
      exact ⟨a, now, rfl, by omega, b, after, hafter, by omega⟩
    · rintro ⟨_, _, heq, haccepted, b, after, hafter, haccepted'⟩
      cases heq
      exact ⟨b, after, hafter, haccepted'.trans haccepted⟩

/-- Where being quiet is a matter of the program, the second step may be asked about the program
that the first one was asked about. -/
theorem quiet_andThen_iff_and {P Q : Prop} (hfirst : Counts first) (hnext : ∀ a, Counts (next a))
    (hP : Quiet first run ↔ P)
    (hQ : ∀ a now, first run = (.ok a, now) → now.accepted = run.accepted →
      now.program = run.program → (Quiet (next a) now ↔ Q)) :
    Quiet (andThen first next) run ↔ P ∧ Q := by
  rw [quiet_andThen_iff hfirst hnext, ← hP]
  constructor
  · rintro ⟨a, now, hstep, haccepted, hquiet⟩
    have hprogram := hfirst.program_eq hstep haccepted
    exact ⟨⟨a, now, hstep, haccepted⟩, (hQ a now hstep haccepted hprogram).mp hquiet⟩
  · rintro ⟨⟨a, now, hstep, haccepted⟩, hrest⟩
    have hprogram := hfirst.program_eq hstep haccepted
    exact ⟨a, now, hstep, haccepted, (hQ a now hstep haccepted hprogram).mpr hrest⟩

end Quiet

/-! ## Attempts -/

/-- Whether the removal of some instructions is refused: none of them is live, or the candidate is
rejected. -/
def Program.Refuses (program : Program) (verdict : Program → Except ε Bool) (indices : List Int) :
    Prop :=
  indices.filter program.isLive = [] ∨ verdict (program.clear indices) = .ok false

section Attempt

variable {oracle : Oracle σ ε} {verdict : Program → Except ε Bool} {run : Run σ}
  {indices : List Int}

theorem attempt_counts (hleaves : oracle.LeavesProgram) (indices : List Int) :
    Counts (attempt oracle indices) :=
  fun start => attempt_keeps_counted hleaves start indices

/-- An attempt that accepts nothing answers so. -/
theorem attempt_of_quiet (hleaves : oracle.LeavesProgram) {answer : Bool} {after : Run σ}
    (hattempt : attempt oracle indices run = (.ok answer, after))
    (haccepted : after.accepted = run.accepted) : answer = false := by
  have hattempted := attempted hleaves indices run
  rw [hattempt] at hattempted
  cases hattempted with
  | idle hidle => rfl
  | rejected state hasks hanswer => rfl
  | accepted state hasks hanswer =>
    have hmore : run.accepted + 1 = run.accepted := haccepted
    omega

/-- **An attempt accepts nothing exactly where the removal is refused.** -/
theorem attempt_quiet_iff (h : oracle.GoesBy verdict) (hindices : run.program.HasIndices indices) :
    Quiet (attempt oracle indices) run ↔ run.program.Refuses verdict indices := by
  have hattempted := attempted h.leavesProgram indices run
  unfold Quiet Program.Refuses
  rcases hattempt : attempt oracle indices run with ⟨answer, after⟩
  rw [hattempt] at hattempted
  cases hattempted with
  | refused e hout => exact absurd hindices hout
  | idle hidle => simp [hidle]
  | failed e state hasks hanswer => simp [hasks.live, h.answer_eq hanswer]
  | rejected state hasks hanswer =>
    simp only [h.answer_eq hanswer, or_true, iff_true]
    exact ⟨false, _, rfl, rfl⟩
  | accepted state hasks hanswer =>
    simp only [hasks.live, h.answer_eq hanswer, Except.ok.injEq, Bool.true_eq_false, or_false,
      iff_false]
    rintro ⟨_, _, heq, haccepted⟩
    cases heq
    have hmore : run.accepted + 1 = run.accepted := haccepted
    omega

end Attempt

/-! ## Reducers -/

/-- Whether the removal of a group is refused, as a whole and of its boundaries alone. -/
def Program.RefusesGroup (program : Program) (verdict : Program → Except ε Bool)
    (group : BlockGroup) : Prop :=
  program.Refuses verdict group.range ∧ program.Refuses verdict group.boundaries

/-- Whether a reducer finds nothing in a program that it could remove. -/
def Reducer.Spent (verdict : Program → Except ε Bool) (program : Program) : Reducer → Prop
  | .groups => ∃ gs, program.groups = .ok gs ∧ ∀ group ∈ gs, program.RefusesGroup verdict group
  | .instructions => ∀ (n : Nat) (instr : Instruction), program.instructions[n]? = some instr →
      instr.isCandidate = true → program.Refuses verdict [(n : Int)]

section Reducers

variable {oracle : Oracle σ ε} {verdict : Program → Except ε Bool} {run : Run σ}

theorem removeInstructions_counts (hleaves : oracle.LeavesProgram) (n : Nat) :
    Counts (removeInstructions oracle n) := fun start =>
  removeInstructions_keeps (fun _ entry hrun => hrun.note entry)
    (attempt_keeps_counted hleaves start) n

theorem tryGroup_counts (hleaves : oracle.LeavesProgram) (group : BlockGroup) :
    Counts (tryGroup oracle group) := fun start =>
  tryGroup_keeps (attempt_keeps_counted hleaves start) group

theorem removeGroups_counts (hleaves : oracle.LeavesProgram) (groups : List BlockGroup) :
    Counts (removeGroups oracle groups) := fun start =>
  removeGroups_keeps (fun _ entry hrun => hrun.note entry) (attempt_keeps_counted hleaves start)
    groups

theorem reduce_counts (hleaves : oracle.LeavesProgram) (reducer : Reducer) :
    Counts (reducer.reduce oracle) := fun start =>
  reduce_keeps (fun _ entry hrun => hrun.note entry) (attempt_keeps_counted hleaves start) reducer

theorem runReducers_counts (hleaves : oracle.LeavesProgram) (round : Nat)
    (reducers : List Reducer) : Counts (runReducers oracle round reducers) := fun start =>
  runReducers_keeps (fun _ entry hrun => hrun.note entry) (attempt_keeps_counted hleaves start)
    reducers round

/-- A pass over instructions accepts nothing where each candidate is refused. -/
theorem removeInstructions_quiet_iff (h : oracle.GoesBy verdict) {n : Nat}
    (hn : n ≤ run.program.size) :
    Quiet (removeInstructions oracle n) run ↔ ∀ m < n, ∀ instr : Instruction,
      run.program.instructions[m]? = some instr → instr.isCandidate = true →
        run.program.Refuses verdict [(m : Int)] := by
  induction n generalizing run with
  | zero =>
    constructor
    · intro _ m hm
      omega
    · intro _
      exact quiet_pass run
  | succ idx ih =>
    obtain ⟨instr, hinstr⟩ : ∃ instr, run.program.instructions[idx]? = some instr :=
      ⟨_, List.getElem?_eq_getElem hn⟩
    have hindices := Program.hasIndices_singleton hn
    have hhere : (∀ other : Instruction, run.program.instructions[idx]? = some other →
        other.isCandidate = true → run.program.Refuses verdict [(idx : Int)]) ↔
        (instr.isCandidate = true → run.program.Refuses verdict [(idx : Int)]) := by
      simp [hinstr]
    rw [Nat.forall_lt_succ_right, hhere, and_comm]
    cases hcandidate : instr.isCandidate with
    | false =>
      have hskip : removeInstructions oracle (idx + 1) run = removeInstructions oracle idx run := by
        simp [removeInstructions, hinstr, hcandidate]
      rw [quiet_congr hskip, ih (Nat.le_of_succ_le hn)]
      simp
    | true =>
      rw [eq_self_iff_true, true_imp_iff]
      have htry : removeInstructions oracle (idx + 1) run
          = andThen (attempt oracle [(idx : Int)])
              (fun _ => removeInstructions oracle idx) run := by
        refine eq_andThen (fun e after hstep => ?_) fun removed after hstep => ?_
        · simp [removeInstructions, hinstr, hcandidate, attemptOne, hstep]
        · simp [removeInstructions, hinstr, hcandidate, attemptOne, hstep]
      rw [quiet_congr htry]
      refine quiet_andThen_iff_and (attempt_counts h.leavesProgram _)
        (fun _ => removeInstructions_counts h.leavesProgram idx) (attempt_quiet_iff h hindices)
        fun a now _ _ hprogram => ?_
      rw [← hprogram] at hn ⊢
      exact ih (Nat.le_of_succ_le hn)

/-- What is left of a visit behind the attempt at the whole group. -/
def tryBoundaries (oracle : Oracle σ ε) (group : BlockGroup) : Bool → Step σ ε Unit
  | true => pass
  | false => andThen (attempt oracle group.boundaries) fun _ => pass

theorem tryGroup_eq (oracle : Oracle σ ε) (group : BlockGroup) (run : Run σ) :
    tryGroup oracle group run
      = andThen (attempt oracle group.range) (tryBoundaries oracle group) run := by
  refine eq_andThen (fun e after hstep => ?_) fun removed whole hstep => ?_
  · simp [tryGroup, hstep]
  · cases removed with
    | true => simp [tryGroup, hstep, tryBoundaries, pass]
    | false =>
      refine eq_andThen (fun e after hnext => ?_) fun removed after hnext => ?_
      · simp [tryGroup, hstep, hnext]
      · simp [tryGroup, hstep, hnext, pass]

theorem tryBoundaries_counts (hleaves : oracle.LeavesProgram) (group : BlockGroup)
    (removed : Bool) : Counts (tryBoundaries oracle group removed) := by
  cases removed with
  | true => exact pass_counts
  | false => exact (attempt_counts hleaves _).andThen fun _ => pass_counts

/-- A visit accepts nothing where the group is refused. -/
theorem tryGroup_quiet_iff (h : oracle.GoesBy verdict) {group : BlockGroup}
    (hrange : run.program.HasIndices group.range)
    (hboundaries : run.program.HasIndices group.boundaries) :
    Quiet (tryGroup oracle group) run ↔ run.program.RefusesGroup verdict group := by
  have hleaves := h.leavesProgram
  rw [quiet_congr (tryGroup_eq oracle group run)]
  refine quiet_andThen_iff_and (attempt_counts hleaves _) (tryBoundaries_counts hleaves group)
    (attempt_quiet_iff h hrange) fun removed now hstep haccepted hprogram => ?_
  -- as nothing was accepted, the boundaries alone are tried
  obtain rfl := attempt_of_quiet hleaves hstep haccepted
  rw [← hprogram] at hboundaries ⊢
  rw [tryBoundaries, quiet_andThen_iff_and (attempt_counts hleaves _) (fun _ => pass_counts)
    (attempt_quiet_iff h hboundaries) fun _ after _ _ _ => iff_true_intro (quiet_pass after),
    and_true]

/-- Visits accept nothing where each group is refused. -/
theorem removeGroups_quiet_iff (h : oracle.GoesBy verdict) (other : Program)
    {lists : List (List Nat)}
    (hlisted : ∀ bs ∈ lists, ∃ head tail, Listed run.program bs head tail) :
    Quiet (removeGroups oracle (lists.map (groupOf other))) run ↔
      ∀ group ∈ lists.map (groupOf other), run.program.RefusesGroup verdict group := by
  induction lists generalizing run with
  | nil =>
    constructor
    · intro _ group hgroup
      cases hgroup
    · intro _
      exact quiet_pass run
  | cons bs rest ih =>
    obtain ⟨⟨head, tail, hbs⟩, hrest⟩ := List.forall_mem_cons.mp hlisted
    have hvisit : removeGroups oracle ((bs :: rest).map (groupOf other)) run
        = andThen (tryGroup oracle (groupOf other bs))
          (fun _ => removeGroups oracle (rest.map (groupOf other))) run := by
      rw [List.map_cons]
      refine eq_andThen (fun e after hstep => ?_) fun u after hstep => ?_
      · rw [hbs.removeGroups_eq, hstep]
      · rw [hbs.removeGroups_eq, hstep]
    rw [quiet_congr hvisit, List.map_cons, List.forall_mem_cons]
    refine quiet_andThen_iff_and (tryGroup_counts h.leavesProgram _)
      (fun _ => removeGroups_counts h.leavesProgram _)
      (tryGroup_quiet_iff h (hbs.hasIndices_range other) (hbs.hasIndices_boundaries other))
      fun a now _ _ hprogram => ?_
    rw [← hprogram] at hrest ⊢
    exact ih hrest

/-- **A reducer accepts nothing exactly where it is spent.** -/
theorem reduce_quiet_iff (h : oracle.GoesBy verdict) (reducer : Reducer) :
    Quiet (reducer.reduce oracle) run ↔ reducer.Spent verdict run.program := by
  cases reducer with
  | instructions =>
    have hpass : Quiet (Reducer.instructions.reduce oracle) run ↔ _ :=
      removeInstructions_quiet_iff h (Nat.le_refl run.program.size)
    rw [hpass]
    constructor
    · intro hall n instr hinstr
      obtain ⟨hlt, -⟩ := List.getElem?_eq_some_iff.mp hinstr
      exact hall n hlt instr hinstr
    · intro hspent m _
      exact hspent m
  | groups =>
    cases hgroups : run.program.groups with
    | error e =>
      constructor
      · rintro ⟨a, after, hstep, -⟩
        simp [Reducer.reduce, hgroups] at hstep
      · rintro ⟨gs, hgs, -⟩
        rw [hgroups] at hgs
        cases hgs
    | ok gs =>
      have hwell := Program.isWellFormed_iff_groups.mpr ⟨gs, hgroups⟩
      obtain ⟨lists, hlists⟩ := exists_boundaryLists_iff.mpr hwell
      have hgs := groups_of_boundaryLists hlists
      rw [hgroups] at hgs
      cases hgs
      have hpass : Reducer.groups.reduce oracle run
          = removeGroups oracle (lists.map (groupOf run.program)) run := by
        simp only [Reducer.reduce, hgroups]
      rw [quiet_congr hpass, removeGroups_quiet_iff h _ fun bs hbs => listed_of_mem hlists hbs]
      constructor
      · intro hall
        exact ⟨_, hgroups, hall⟩
      · rintro ⟨gs, hgs, hall⟩
        rw [hgroups] at hgs
        cases hgs
        exact hall

/-- **A round accepts nothing exactly where all its reducers are spent.** -/
theorem runReducers_quiet_iff (h : oracle.GoesBy verdict) (round : Nat) (reducers : List Reducer) :
    Quiet (runReducers oracle round reducers) run ↔
      ∀ reducer ∈ reducers, reducer.Spent verdict run.program := by
  induction reducers generalizing run with
  | nil =>
    constructor
    · intro _ reducer hreducer
      cases hreducer
    · intro _
      exact quiet_pass run
  | cons reducer rest ih =>
    let noted : Run σ := run.note (.started round reducer.name)
    have hround : runReducers oracle round (reducer :: rest) run
        = andThen (reducer.reduce oracle) (fun _ => runReducers oracle round rest) noted := by
      refine eq_andThen (fun e after hstep => ?_) fun u after hstep => ?_
      · rw [runReducers, hstep]
      · rw [runReducers, hstep]
    have hquiet : Quiet (runReducers oracle round (reducer :: rest)) run ↔
        Quiet (andThen (reducer.reduce oracle) fun _ => runReducers oracle round rest) noted := by
      unfold Quiet
      rw [hround]
      rfl
    rw [hquiet, List.forall_mem_cons]
    refine quiet_andThen_iff_and (reduce_counts h.leavesProgram reducer)
      (fun _ => runReducers_counts h.leavesProgram round rest) (reduce_quiet_iff h reducer)
      fun a now _ _ hprogram => ?_
    rw [ih, hprogram]
    exact Iff.rfl

end Reducers

end FlatCode
