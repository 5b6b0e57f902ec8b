import FlatCode.Proofs.Reduction.InStep

/-!
# The program during a reduction

What an oracle is asked and answers can be written down next to its own state (`Oracle.recorded`):
this changes nothing about a reduction. At each question, and when the reduction is over or has
failed, the program is the last candidate that was accepted, or the one of the start
(`lastAccepted`). So it only gets thinner, and it is well formed once a well-formed candidate has
been accepted.

* `attempt_keeps_faithful` — an attempt writes down at most one question and goes by its answer
* `minimize_lastAccepted` — the program at each question, and at the end
-/

namespace FlatCode

variable {σ ε : Type}

/-! ## Transcripts -/

/-- A question to an oracle and its answer. -/
structure Question (ε : Type) where
  candidate : Program
  /-- The program that is being reduced, at the time of the question. -/
  current : Program
  answer : Except ε Bool

/-- The oracle that also writes down the questions, in order, with their answers. -/
def Oracle.recorded (oracle : Oracle σ ε) : Oracle (σ × List (Question ε)) ε :=
  ⟨fun candidate state current =>
    let (answer, next, program) := oracle.judge candidate state.1 current
    (answer, (next, state.2 ++ [⟨candidate, current, answer⟩]), program)⟩

/-- The program behind a question: the candidate if it was accepted. -/
def Question.outcome (program : Program) (question : Question ε) : Program :=
  match question.answer with
  | .ok true => question.candidate
  | _ => program

/-- The candidate that was accepted last, or the program of the start if none was. -/
def lastAccepted (start : Program) (asked : List (Question ε)) : Program :=
  asked.foldl Question.outcome start

/-- The program at each question, and the one in the end. -/
def sightings (asked : List (Question ε)) (program : Program) : List Program :=
  asked.map Question.current ++ [program]

theorem outcome_of_ne {q : Question ε} (h : q.answer ≠ .ok true) (program : Program) :
    q.outcome program = program := by
  unfold Question.outcome
  split
  · contradiction
  · rfl

theorem lastAccepted_concat (start : Program) (asked : List (Question ε)) (q : Question ε) :
    lastAccepted start (asked ++ [q]) = q.outcome (lastAccepted start asked) := by
  rw [lastAccepted, List.foldl_append]
  rfl

/-- What was accepted last is among the questions, unless nothing was accepted. -/
theorem lastAccepted_eq_or_exists (start : Program) (asked : List (Question ε)) :
    lastAccepted start asked = start ∧ (∀ q ∈ asked, q.answer ≠ .ok true) ∨
      ∃ q ∈ asked, q.answer = .ok true ∧ lastAccepted start asked = q.candidate := by
  induction asked generalizing start with
  | nil => exact .inl ⟨rfl, by simp⟩
  | cons q asked ih =>
    have hfirst : lastAccepted start (q :: asked) = lastAccepted (q.outcome start) asked := rfl
    rw [hfirst]
    rcases ih (q.outcome start) with ⟨heq, hnone⟩ | ⟨q', hq', haccepted, heq⟩
    · by_cases hanswer : q.answer = .ok true
      · refine .inr ⟨q, List.mem_cons_self, hanswer, ?_⟩
        rw [heq, Question.outcome, hanswer]
      · refine .inl ⟨?_, List.forall_mem_cons.mpr ⟨hanswer, hnone⟩⟩
        rw [heq, outcome_of_ne hanswer]
    · exact .inr ⟨q', List.mem_cons_of_mem _ hq', haccepted, heq⟩

theorem Oracle.LeavesProgram.recorded {oracle : Oracle σ ε} (h : oracle.LeavesProgram) :
    oracle.recorded.LeavesProgram := fun candidate state current => h candidate state.1 current

/-- An oracle behind a guard writes down nothing if the guard rejects the candidate, else what it
answers. -/
theorem judge_recorded_guarded (oracle : Oracle σ ε) (required : Bool) (candidate : Program)
    (state : σ × List (Question ε)) (current : Program) :
    let verdict := (oracle.recorded.guarded required).judge candidate state current
    (verdict.1 = .ok false ∧ verdict.2.1 = state) ∨
      ((required = true → candidate.isWellFormed = true) ∧
        verdict.2.1.2 = state.2 ++ [⟨candidate, current, verdict.1⟩]) := by
  unfold Oracle.guarded
  by_cases hwell : candidate.isWellFormed = true
  · simp only [hwell, Bool.not_true, Bool.and_false, Bool.false_eq_true, if_false]
    exact .inr ⟨fun _ => trivial, rfl⟩
  · cases required with
    | true =>
      simp only [hwell, Bool.not_false, Bool.and_true, if_true]
      exact .inl ⟨trivial, trivial⟩
    | false => exact .inr ⟨fun h => absurd h Bool.false_ne_true, rfl⟩

/-! ## What a transcript says of a run -/

/-- Whether the transcript of a run that started with a program tells where its program comes
from. -/
structure Faithful (start : Program) (required : Bool) (run : Run (σ × List (Question ε))) :
    Prop where
  /-- The program is always what was accepted last. -/
  sighted : ∀ (k : Nat) (p : Program), (sightings run.state.2 run.program)[k]? = some p →
    p = lastAccepted start (run.state.2.take k)
  /-- It only gets thinner. -/
  thinned : (start :: sightings run.state.2 run.program).Pairwise Thinned
  /-- The oracle is asked about well-formed candidates only, if that is required. -/
  asked : required = true → ∀ q ∈ run.state.2, q.candidate.isWellFormed = true

theorem Faithful.program_eq {start : Program} {required : Bool}
    {run : Run (σ × List (Question ε))} (h : Faithful start required run) :
    run.program = lastAccepted start run.state.2 := by
  have hlast := h.sighted run.state.2.length run.program (by
    rw [sightings, List.getElem?_append_right (by simp)]
    simp)
  rwa [List.take_length] at hlast

/-- One more question, asked about a candidate that is thinner than the program. -/
theorem Faithful.step {start : Program} {required : Bool} {run after : Run (σ × List (Question ε))}
    (h : Faithful start required run) {q : Question ε}
    (hstate : after.state.2 = run.state.2 ++ [q]) (hcurrent : q.current = run.program)
    (hprogram : after.program = q.outcome run.program) (hthinned : Thinned run.program q.candidate)
    (hasked : required = true → q.candidate.isWellFormed = true) :
    Faithful start required after := by
  have hsightings : sightings after.state.2 after.program
      = sightings run.state.2 run.program ++ [after.program] := by
    rw [sightings, sightings, hstate, List.map_append, List.map_singleton, hcurrent]
  have hlength : (sightings run.state.2 run.program).length = run.state.2.length + 1 := by
    rw [sightings, List.length_append, List.length_map, List.length_singleton]
  have hstep : Thinned run.program after.program := by
    rw [hprogram, Question.outcome]
    split
    · exact hthinned
    · exact .refl _
  refine ⟨?_, ?_, ?_⟩
  · intro k p hp
    rw [hsightings] at hp
    by_cases hk : k < run.state.2.length + 1
    · rw [List.getElem?_append_left (by omega)] at hp
      rw [hstate, List.take_append_of_le_length (by omega)]
      exact h.sighted k p hp
    · obtain ⟨hsize, -⟩ := List.getElem?_eq_some_iff.mp hp
      rw [List.length_append, hlength, List.length_singleton] at hsize
      obtain rfl : k = (sightings run.state.2 run.program).length := by omega
      rw [List.getElem?_concat_length] at hp
      cases hp
      rw [hlength, hstate, List.take_of_length_le (by simp), lastAccepted_concat, hprogram,
        h.program_eq]
  · rw [hsightings, ← List.cons_append, List.pairwise_append]
    refine ⟨h.thinned, List.pairwise_singleton _ _, ?_⟩
    intro p hp p' hp'
    obtain rfl := List.mem_singleton.mp hp'
    -- whatever was seen is the program in front of the step, or thicker
    have hall := h.thinned
    rw [sightings, ← List.cons_append] at hall hp
    rcases List.mem_append.mp hp with hfront | hlast
    · exact ((List.pairwise_append.mp hall).2.2 p hfront _ (List.mem_singleton_self _)).trans hstep
    · rw [List.mem_singleton.mp hlast]
      exact hstep
  · intro hrequired q' hq'
    rw [hstate] at hq'
    rcases List.mem_append.mp hq' with hfront | hlast
    · exact h.asked hrequired q' hfront
    · rw [List.mem_singleton.mp hlast]
      exact hasked hrequired

/-- **An attempt writes down at most one question, and goes by its answer.** -/
theorem attempt_keeps_faithful {oracle : Oracle σ ε} (h : oracle.LeavesProgram)
    (start : Program) (required : Bool) (indices : List Int) :
    Keeps (Faithful start required) (attempt (oracle.recorded.guarded required) indices) := by
  refine attempt_keeps (h.recorded.guarded required) fun run answer after hattempted hrun => ?_
  have hjudge := judge_recorded_guarded oracle required (run.program.clear indices) run.state
    run.program
  have hthinned := thinned_clear run.program indices
  cases hattempted with
  | refused e hout => exact hrun
  | idle hidle => exact hrun
  | failed e state hasks hanswer =>
    rw [hanswer] at hjudge
    rcases hjudge with ⟨hfalse, -⟩ | ⟨hasked, hstate⟩
    · cases hfalse
    · exact hrun.step hstate rfl rfl hthinned hasked
  | rejected state hasks hanswer =>
    rw [hanswer] at hjudge
    rcases hjudge with ⟨-, rfl⟩ | ⟨hasked, hstate⟩
    · exact ⟨hrun.sighted, hrun.thinned, hrun.asked⟩
    · exact hrun.step hstate rfl rfl hthinned hasked
  | accepted state hasks hanswer =>
    rw [hanswer] at hjudge
    rcases hjudge with ⟨hfalse, -⟩ | ⟨hasked, hstate⟩
    · cases hfalse
    · exact hrun.step hstate rfl rfl hthinned hasked

/-! ## Whole reductions -/

/-- Writing down what an oracle is asked changes nothing about an attempt. -/
theorem attempt_recorded (oracle : Oracle σ ε) (required : Bool) (indices : List Int) :
    InStep (fun run run' => run = run'.mapState Prod.fst)
      (attempt (oracle.guarded required) indices)
      (attempt (oracle.recorded.guarded required) indices) := by
  refine attempt_inStep (fun candidate state current => ?_) indices
  unfold Oracle.guarded
  dsimp only
  split
  · rfl
  · rfl

theorem Faithful.note {start : Program} {required : Bool} {run : Run (σ × List (Question ε))}
    (h : Faithful start required run) (entry : LogEntry) :
    Faithful start required (run.note entry) := ⟨h.sighted, h.thinned, h.asked⟩

theorem faithful_start (required : Bool) (run : Run σ) :
    Faithful (ε := ε) run.program required (run.mapState fun state => (state, [])) := by
  refine ⟨?_, ?_, ?_⟩
  · intro k p hp
    obtain rfl := List.mem_singleton.mp (List.mem_of_getElem? hp)
    exact (congrArg (lastAccepted run.program) List.take_nil).symm
  · exact .cons (List.forall_mem_singleton.mpr (.refl _)) (List.pairwise_singleton _ _)
  · intro _ q hq
    cases hq

/-- What is seen is well formed behind an accepted candidate, and always if the start is. -/
theorem Faithful.isWellFormed {start : Program} {run : Run (σ × List (Question ε))}
    (h : Faithful start true run) {k : Nat} {p : Program}
    (hp : (sightings run.state.2 run.program)[k]? = some p)
    (hwell : start.isWellFormed = true ∨ ∃ q ∈ run.state.2.take k, q.answer = .ok true) :
    p.isWellFormed = true := by
  rw [h.sighted k p hp]
  rcases lastAccepted_eq_or_exists start (run.state.2.take k) with
    ⟨heq, hnone⟩ | ⟨q, hq, -, heq⟩
  · rw [heq]
    rcases hwell with hstart | ⟨q, hq, haccepted⟩
    · exact hstart
    · exact absurd haccepted (hnone q hq)
  · rw [heq]
    exact h.asked rfl q (List.mem_of_mem_take hq)

/-- **At each question, and when a reduction is over or has failed, the program is what was accepted
last**, or the program of the start. So the programs at these times get thinner and thinner. If
candidates have to be well formed, the program is well formed once one was accepted, and all the
time if it is so at the start. -/
theorem minimize_lastAccepted {oracle : Oracle σ ε} (h : oracle.LeavesProgram) (required : Bool)
    (reducers : List Reducer) (maxRounds : Int) (run : Run σ) :
    ∃ result after, minimize (oracle.recorded.guarded required) reducers maxRounds
        (run.mapState fun state => (state, [])) = (result, after) ∧
      minimize (oracle.guarded required) reducers maxRounds run
        = (result, after.mapState Prod.fst) ∧
      (∀ (k : Nat) (p : Program), (sightings after.state.2 after.program)[k]? = some p →
        p = lastAccepted run.program (after.state.2.take k) ∧
        (required = true → run.program.isWellFormed = true ∨
          (∃ q ∈ after.state.2.take k, q.answer = .ok true) → p.isWellFormed = true)) ∧
      (run.program :: sightings after.state.2 after.program).Pairwise Thinned := by
  have hreducers : ∀ reducer ∈ reducers, InStep (fun run run' => run = run'.mapState Prod.fst)
      (reducer.reduce (oracle.guarded required))
      (reducer.reduce (oracle.recorded.guarded required)) :=
    fun reducer _ => reduce_inStep (alike_mapState Prod.fst) (attempt_recorded oracle required)
      reducer
  have hinStep := minimize_inStep (alike_mapState Prod.fst) hreducers maxRounds run
    (run.mapState fun state => (state, [])) rfl
  have hfaithful := minimize_keeps (fun _ entry hrun => hrun.note entry)
    (attempt_keeps_faithful h run.program required) reducers maxRounds _
    (faithful_start required run)
  refine ⟨_, _, rfl, Prod.ext hinStep.1 hinStep.2, ?_, hfaithful.thinned⟩
  intro k p hp
  refine ⟨hfaithful.sighted k p hp, fun hrequired hwell => ?_⟩
  subst hrequired
  exact hfaithful.isWellFormed hp hwell

/-- An oracle that accepts one candidate and then fails. -/
theorem minimize_stopped :
    let program : Program := ⟨[⟨.ofSimple "LoadInteger", [.int 1]⟩, ⟨.ofBegin "BeginIf", []⟩,
      ⟨.ofSimple "LoadInteger", [.int 2]⟩, ⟨.ofEnd "EndIf", []⟩]⟩
    let oracle : Oracle Nat String := ⟨fun _ state current =>
      (if state = 0 then .ok true else .error "stop", state + 1, current)⟩
    oracle.LeavesProgram ∧ ∃ after,
      minimize (oracle.guarded true) [.instructions] 2 { program, state := 0 }
        = (.error (.oracle "stop"), after) ∧
      after.program.names = (["LoadInteger", "BeginIf", "Nop", "EndIf"] : List Text) ∧
      Thinned program after.program ∧ after.program.isWellFormed = true := by
  intro program oracle
  have hleaves : oracle.LeavesProgram := fun _ _ _ => rfl
  obtain ⟨result, after, hrecorded, hplain, hsight, hthinned⟩ :=
    minimize_lastAccepted hleaves true [.instructions] 2 { program, state := 0 }
  obtain ⟨rfl, rfl⟩ := Prod.ext_iff.mp hrecorded
  refine ⟨hleaves, _, hplain, rfl, ?_, ?_⟩
  · exact (List.pairwise_cons.mp hthinned).1 _ (List.mem_append_right _ (List.mem_singleton_self _))
  · exact (hsight 2 _ rfl).2 rfl (.inl (by decide))

end FlatCode
