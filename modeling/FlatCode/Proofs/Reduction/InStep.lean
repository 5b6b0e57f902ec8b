import FlatCode.Reduction.Minimize
import FlatCode.Proofs.Reduction.Attempts

/-!
# Reductions in step

A reduction looks at the program and at what its attempts answer, and at nothing else. So if two
oracles make the reducers answer alike, and leave runs that look alike (`Alike`), whole reductions
with these oracles go in step. What every reducer of one oracle keeps is the case of a run next to
itself (`minimize_keeps`).

* `reduce_inStep` — reducers go in step if the attempts do
* `minimize_inStep` — reductions go in step if the reducers do
-/

namespace FlatCode

variable {σ τ ε α β : Type}

theorem Instruction.isCandidate_iff {instr : Instruction} : instr.isCandidate = true ↔
    instr.operation.simple = true ∧ instr.isNop = false ∧ instr.isComment = false := by
  rw [isCandidate, Bool.and_eq_true, Bool.and_eq_true, Bool.not_eq_true', Bool.not_eq_true',
    and_assoc]

/-- Whether a relation holds only of runs that look the same to a reduction, also with one more
entry in their logs. -/
structure Alike (R : Run σ → Run τ → Prop) : Prop where
  program : ∀ {run run'}, R run run' → run.program = run'.program
  attempts : ∀ {run run'}, R run run' → run.attempts = run'.attempts
  accepted : ∀ {run run'}, R run run' → run.accepted = run'.accepted
  note : ∀ {run run'} (entry : LogEntry), R run run' → R (run.note entry) (run'.note entry)

/-- Whether two steps answer the same from related runs, and leave related runs. -/
def InStep (R : Run σ → Run τ → Prop) (step : Step σ ε α) (step' : Step τ ε α) : Prop :=
  ∀ run run', R run run' → (step run).1 = (step' run').1 ∧ R (step run).2 (step' run').2

section InStep

variable {R : Run σ → Run τ → Prop} {oracle : Oracle σ ε} {oracle' : Oracle τ ε}
  {step : Step σ ε α} {step' : Step τ ε α} {run : Run σ} {run' : Run τ}

/-- The two ways in which steps end that go in step. -/
theorem InStep.ends (h : InStep R step step') (hrun : R run run') :
    ∃ after after', R after after' ∧
      ((∃ e, step run = (.error e, after) ∧ step' run' = (.error e, after')) ∨
        ∃ a, step run = (.ok a, after) ∧ step' run' = (.ok a, after')) := by
  obtain ⟨hanswer, hafter⟩ := h run run' hrun
  rcases hstep : step run with ⟨answer, after⟩
  rcases hstep' : step' run' with ⟨answer', after'⟩
  rw [hstep, hstep'] at hanswer hafter
  dsimp only at hanswer hafter
  subst hanswer
  refine ⟨after, after', hafter, ?_⟩
  cases answer with
  | error e => exact .inl ⟨e, rfl, rfl⟩
  | ok a => exact .inr ⟨a, rfl, rfl⟩

/-! ## Reducers -/

theorem removeInstructions_inStep (hR : Alike R)
    (h : ∀ indices, InStep R (attempt oracle indices) (attempt oracle' indices)) (n : Nat) :
    InStep R (removeInstructions oracle n) (removeInstructions oracle' n) := by
  induction n with
  | zero =>
    intro run run' hrun
    exact ⟨rfl, hrun⟩
  | succ idx ih =>
    intro run run' hrun
    rw [removeInstructions, removeInstructions, ← hR.program hrun]
    cases run.program.instructions[idx]? with
    | none => exact ⟨rfl, hrun⟩
    | some instr =>
      by_cases hcandidate : instr.isCandidate = true
      · obtain ⟨after, after', hafter, ⟨e, hstep, hstep'⟩ | ⟨removed, hstep, hstep'⟩⟩ :=
          (h [(idx : Int)]).ends hrun
        · simp only [hcandidate, if_true, attemptOne, hstep, hstep']
          exact ⟨trivial, hafter⟩
        · simp only [hcandidate, if_true, attemptOne, hstep, hstep']
          exact ih _ _ hafter
      · simp only [hcandidate]
        exact ih _ _ hrun

/-- Tries a group: as a whole, else its boundaries alone. -/
def tryGroup (oracle : Oracle σ ε) (group : BlockGroup) : Step σ ε Unit := fun run =>
  match attempt oracle group.range run with
  | (.error e, run) => (.error e, run)
  | (.ok true, run) => (.ok (), run)
  | (.ok false, run) =>
    match attempt oracle group.boundaries run with
    | (.error e, run) => (.error e, run)
    | (.ok _, run) => (.ok (), run)

/-- The reducer of groups tries one group after the other. -/
theorem removeGroups_cons (oracle : Oracle σ ε) (group : BlockGroup) (rest : List BlockGroup)
    (run : Run σ) :
    removeGroups oracle (group :: rest) run
      = match run.program.at? group.head with
        | none => (.error .noSuchItem, run)
        | some instr =>
          if !instr.operation.groupBegin then removeGroups oracle rest run
          else
            match tryGroup oracle group run with
            | (.error e, after) => (.error e, after)
            | (.ok (), after) => removeGroups oracle rest after := by
  rw [removeGroups]
  cases run.program.at? group.head with
  | none => rfl
  | some instr =>
    dsimp only
    congr 1
    unfold tryGroup
    rcases attempt oracle group.range run with ⟨answer, whole⟩
    cases answer with
    | error e => rfl
    | ok removed =>
      cases removed with
      | true => rfl
      | false =>
        dsimp only
        rcases attempt oracle group.boundaries whole with ⟨answer, after⟩
        cases answer with
        | error e => rfl
        | ok removed => rfl

theorem tryGroup_inStep
    (h : ∀ indices, InStep R (attempt oracle indices) (attempt oracle' indices))
    (group : BlockGroup) : InStep R (tryGroup oracle group) (tryGroup oracle' group) := by
  intro run run' hrun
  rw [tryGroup, tryGroup]
  obtain ⟨whole, whole', hwhole, ⟨e, hstep, hstep'⟩ | ⟨removed, hstep, hstep'⟩⟩ :=
    (h group.range).ends hrun
  · rw [hstep, hstep']
    exact ⟨rfl, hwhole⟩
  · rw [hstep, hstep']
    cases removed with
    | true => exact ⟨rfl, hwhole⟩
    | false =>
      -- the boundaries alone are tried from where the whole group was rejected
      obtain ⟨after, after', hafter, ⟨e, hnext, hnext'⟩ | ⟨removed, hnext, hnext'⟩⟩ :=
        (h group.boundaries).ends hwhole
      · dsimp only
        rw [hnext, hnext']
        exact ⟨rfl, hafter⟩
      · dsimp only
        rw [hnext, hnext']
        exact ⟨rfl, hafter⟩

theorem removeGroups_inStep (hR : Alike R)
    (h : ∀ indices, InStep R (attempt oracle indices) (attempt oracle' indices))
    (groups : List BlockGroup) :
    InStep R (removeGroups oracle groups) (removeGroups oracle' groups) := by
  induction groups with
  | nil =>
    intro run run' hrun
    exact ⟨rfl, hrun⟩
  | cons group rest ih =>
    intro run run' hrun
    rw [removeGroups_cons, removeGroups_cons, ← hR.program hrun]
    cases run.program.at? group.head with
    | none => exact ⟨rfl, hrun⟩
    | some instr =>
      dsimp only
      split
      · exact ih _ _ hrun
      · obtain ⟨after, after', hafter, ⟨e, hstep, hstep'⟩ | ⟨u, hstep, hstep'⟩⟩ :=
          (tryGroup_inStep h group).ends hrun
        · rw [hstep, hstep']
          exact ⟨rfl, hafter⟩
        · rw [hstep, hstep']
          exact ih _ _ hafter

/-- **Reducers go in step if the attempts do.** -/
theorem reduce_inStep (hR : Alike R)
    (h : ∀ indices, InStep R (attempt oracle indices) (attempt oracle' indices))
    (reducer : Reducer) : InStep R (reducer.reduce oracle) (reducer.reduce oracle') := by
  intro run run' hrun
  cases reducer with
  | instructions =>
    rw [Reducer.reduce, Reducer.reduce, ← hR.program hrun]
    exact removeInstructions_inStep hR h _ _ _ hrun
  | groups =>
    rw [Reducer.reduce, Reducer.reduce, ← hR.program hrun]
    cases run.program.groups with
    | error e => exact ⟨rfl, hrun⟩
    | ok found => exact removeGroups_inStep hR h found _ _ hrun

/-! ## Rounds -/

variable {reducers : List Reducer}

theorem runReducers_inStep (hR : Alike R)
    (h : ∀ reducer ∈ reducers, InStep R (reducer.reduce oracle) (reducer.reduce oracle'))
    (round : Nat) :
    InStep R (runReducers oracle round reducers) (runReducers oracle' round reducers) := by
  induction reducers with
  | nil =>
    intro run run' hrun
    exact ⟨rfl, hrun⟩
  | cons reducer rest ih =>
    intro run run' hrun
    obtain ⟨hreducer, hrest⟩ := List.forall_mem_cons.mp h
    rw [runReducers, runReducers]
    obtain ⟨after, after', hafter, ⟨e, hstep, hstep'⟩ | ⟨u, hstep, hstep'⟩⟩ :=
      hreducer.ends (hR.note (.started round reducer.name) hrun)
    · rw [hstep, hstep']
      exact ⟨rfl, hafter⟩
    · rw [hstep, hstep']
      exact ih hrest _ _ hafter

theorem rounds_inStep (hR : Alike R)
    (h : ∀ reducer ∈ reducers, InStep R (reducer.reduce oracle) (reducer.reduce oracle'))
    (further done : Nat) :
    InStep R (rounds oracle reducers further done) (rounds oracle' reducers further done) := by
  induction further generalizing done with
  | zero =>
    intro run run' hrun
    exact ⟨rfl, hrun⟩
  | succ further ih =>
    intro run run' hrun
    rw [rounds, rounds, ← hR.accepted hrun]
    obtain ⟨after, after', hafter, ⟨e, hstep, hstep'⟩ | ⟨u, hstep, hstep'⟩⟩ :=
      (runReducers_inStep hR h (done + 1)).ends hrun
    · rw [hstep, hstep']
      exact ⟨rfl, hafter⟩
    · rw [hstep, hstep']
      dsimp only
      rw [← hR.accepted hafter, ← hR.program hafter]
      have hnoted := hR.note (.finished (done + 1) (after.accepted - run.accepted)
        after.program.payload) hafter
      by_cases hchanged : after.accepted - run.accepted = 0
      · rw [if_pos hchanged, if_pos hchanged]
        exact ⟨rfl, hnoted⟩
      · rw [if_neg hchanged, if_neg hchanged]
        exact ih (done + 1) _ _ hnoted

/-- **Reductions go in step if the reducers do.** -/
theorem minimize_inStep (hR : Alike R)
    (h : ∀ reducer ∈ reducers, InStep R (reducer.reduce oracle) (reducer.reduce oracle'))
    (maxRounds : Int) :
    InStep R (minimize oracle reducers maxRounds) (minimize oracle' reducers maxRounds) := by
  intro run run' hrun
  unfold minimize
  by_cases hmax : maxRounds < 1
  · rw [if_pos hmax, if_pos hmax]
    exact ⟨rfl, hrun⟩
  · rw [if_neg hmax, if_neg hmax]
    obtain ⟨after, after', hafter, ⟨e, hstep, hstep'⟩ | ⟨count, hstep, hstep'⟩⟩ :=
      (rounds_inStep hR h maxRounds.toNat 0).ends hrun
    · rw [hstep, hstep']
      exact ⟨rfl, hafter⟩
    · rw [hstep, hstep']
      dsimp only
      rw [hR.attempts hafter, hR.accepted hafter, hR.program hafter, hR.attempts hrun,
        hR.accepted hrun, hR.program hrun]
      exact ⟨rfl, hafter⟩

end InStep

/-! ## Oracles that differ in their states -/

/-- The run with another state of the oracle. -/
def Run.mapState (f : τ → σ) (run : Run τ) : Run σ := { run with state := f run.state }

theorem alike_mapState (f : τ → σ) :
    Alike fun (run : Run σ) (run' : Run τ) => run = run'.mapState f := by
  refine ⟨?_, ?_, ?_, ?_⟩
  · rintro run run' rfl
    rfl
  · rintro run run' rfl
    rfl
  · rintro run run' rfl
    rfl
  · rintro run run' entry rfl
    rfl

theorem settle_mapState (f : τ → σ) (run : Run τ) (targets : List Int)
    (verdict : Except ε Bool × τ × Program) :
    (run.mapState f).settle targets (verdict.1, f verdict.2.1, verdict.2.2)
      = ((run.settle targets verdict).1, (run.settle targets verdict).2.mapState f) := by
  rcases verdict with ⟨answer, state, program⟩
  unfold Run.settle
  dsimp only
  cases answer with
  | error e => rfl
  | ok accepts =>
    cases accepts with
    | false => rfl
    | true =>
      dsimp only
      cases program.nopAll targets with
      | error e => rfl
      | ok candidate => rfl

/-- **Attempts go in step with those of an oracle that knows more.** -/
theorem attempt_inStep {f : τ → σ} {oracle : Oracle σ ε} {oracle' : Oracle τ ε}
    (h : ∀ candidate state current, oracle.judge candidate (f state) current
      = ((oracle'.judge candidate state current).1, f (oracle'.judge candidate state current).2.1,
        (oracle'.judge candidate state current).2.2)) (indices : List Int) :
    InStep (fun run run' => run = run'.mapState f) (attempt oracle indices)
      (attempt oracle' indices) := by
  rintro _ run rfl
  rw [attempt_eq, attempt_eq]
  have hprogram : (run.mapState f).program = run.program := rfl
  rw [hprogram]
  cases run.program.remaining? indices with
  | none => exact ⟨rfl, rfl⟩
  | some targets =>
    cases targets with
    | nil => exact ⟨rfl, rfl⟩
    | cons idx rest =>
      dsimp only
      cases run.program.nopAll (idx :: rest) with
      | error e => exact ⟨rfl, rfl⟩
      | ok candidate =>
        have hjudge := h candidate run.state run.program
        have hsettle := settle_mapState f run (idx :: rest)
          (oracle'.judge candidate run.state run.program)
        rw [← hjudge] at hsettle
        exact Prod.ext_iff.mp hsettle

/-! ## What a reduction keeps -/

/-- Whether a property of a run holds behind a step if it holds in front of it. -/
def Keeps (Inv : Run σ → Prop) (step : Step σ ε α) : Prop := ∀ run, Inv run → Inv (step run).2

section Keeps

variable {Inv : Run σ → Prop} {oracle : Oracle σ ε}

theorem keeps_iff_inStep {step : Step σ ε α} :
    Keeps Inv step ↔ InStep (fun run run' => run = run' ∧ Inv run) step step := by
  constructor
  · rintro h run _ ⟨rfl, hrun⟩
    exact ⟨rfl, rfl, h run hrun⟩
  · intro h run hrun
    exact (h run run ⟨rfl, hrun⟩).2.2

theorem alike_self (hnote : ∀ run entry, Inv run → Inv (run.note entry)) :
    Alike fun run run' : Run σ => run = run' ∧ Inv run := by
  refine ⟨?_, ?_, ?_, ?_⟩
  · rintro run _ ⟨rfl, -⟩
    rfl
  · rintro run _ ⟨rfl, -⟩
    rfl
  · rintro run _ ⟨rfl, -⟩
    rfl
  · rintro run _ entry ⟨rfl, hrun⟩
    exact ⟨rfl, hnote run entry hrun⟩

/-- An attempt keeps what each of its ends keeps. -/
theorem attempt_keeps (hleaves : oracle.LeavesProgram) {indices : List Int}
    (h : ∀ run answer after, Attempted oracle indices run answer after → Inv run → Inv after) :
    Keeps Inv (attempt oracle indices) :=
  fun run hrun => h run _ _ (attempted hleaves indices run) hrun

theorem tryGroup_keeps (h : ∀ indices, Keeps Inv (attempt oracle indices)) (group : BlockGroup) :
    Keeps Inv (tryGroup oracle group) := by
  rw [keeps_iff_inStep]
  exact tryGroup_inStep (fun indices => keeps_iff_inStep.mp (h indices)) group

theorem removeGroups_keeps (hnote : ∀ run entry, Inv run → Inv (run.note entry))
    (h : ∀ indices, Keeps Inv (attempt oracle indices)) (groups : List BlockGroup) :
    Keeps Inv (removeGroups oracle groups) := by
  rw [keeps_iff_inStep]
  exact removeGroups_inStep (alike_self hnote) (fun indices => keeps_iff_inStep.mp (h indices))
    groups

theorem removeInstructions_keeps (hnote : ∀ run entry, Inv run → Inv (run.note entry))
    (h : ∀ indices, Keeps Inv (attempt oracle indices)) (n : Nat) :
    Keeps Inv (removeInstructions oracle n) := by
  rw [keeps_iff_inStep]
  exact removeInstructions_inStep (alike_self hnote)
    (fun indices => keeps_iff_inStep.mp (h indices)) n

/-- What attempts keep is kept by reducers. -/
theorem reduce_keeps (hnote : ∀ run entry, Inv run → Inv (run.note entry))
    (h : ∀ indices, Keeps Inv (attempt oracle indices)) (reducer : Reducer) :
    Keeps Inv (reducer.reduce oracle) := by
  rw [keeps_iff_inStep]
  exact reduce_inStep (alike_self hnote) (fun indices => keeps_iff_inStep.mp (h indices)) reducer

theorem runReducers_keeps (hnote : ∀ run entry, Inv run → Inv (run.note entry))
    (h : ∀ indices, Keeps Inv (attempt oracle indices)) (reducers : List Reducer) (round : Nat) :
    Keeps Inv (runReducers oracle round reducers) := by
  rw [keeps_iff_inStep]
  exact runReducers_inStep (alike_self hnote)
    (fun reducer _ => keeps_iff_inStep.mp (reduce_keeps hnote h reducer)) round

/-- **What attempts keep is kept by a whole reduction**, also by one that fails. -/
theorem minimize_keeps (hnote : ∀ run entry, Inv run → Inv (run.note entry))
    (h : ∀ indices, Keeps Inv (attempt oracle indices)) (reducers : List Reducer)
    (maxRounds : Int) : Keeps Inv (minimize oracle reducers maxRounds) := by
  rw [keeps_iff_inStep]
  exact minimize_inStep (alike_self hnote)
    (fun reducer _ => keeps_iff_inStep.mp (reduce_keeps hnote h reducer)) maxRounds

end Keeps

end FlatCode
