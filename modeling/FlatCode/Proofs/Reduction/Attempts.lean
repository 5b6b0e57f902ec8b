import FlatCode.Reduction.Minimize
import FlatCode.Proofs.Reduction.Removal

/-!
# What an attempt does

An oracle that leaves the program alone (`Oracle.LeavesProgram`) has five ways to let an attempt end
(`Attempted`). The program changes in one of them only, and then to the very candidate that was
accepted.

* `attempted` — an attempt ends in one of the five ways
* `program_of_attempt` — what an attempt makes of the program
* `attempt_guarded` — a guard makes no difference to an attempt with a well-formed candidate
-/

namespace FlatCode

variable {σ ε : Type}

/-- Whether an oracle never edits the program that is being reduced. -/
def Oracle.LeavesProgram (oracle : Oracle σ ε) : Prop :=
  ∀ candidate state current, (oracle.judge candidate state current).2.2 = current

theorem Oracle.LeavesProgram.guarded {oracle : Oracle σ ε} (h : oracle.LeavesProgram)
    (required : Bool) : (oracle.guarded required).LeavesProgram := by
  intro candidate state current
  unfold Oracle.guarded
  dsimp only
  split
  · rfl
  · exact h candidate state current

/-! ## The ends of an attempt -/

/-- What becomes of a run with the oracle's verdict about removing some instructions. -/
def Run.settle (run : Run σ) (targets : List Int) (verdict : Except ε Bool × σ × Program) :
    Except (ReductionError ε) Bool × Run σ :=
  let asked : Run σ :=
    { run with program := verdict.2.2, state := verdict.2.1, attempts := run.attempts + 1 }
  match verdict.1 with
  | .error e => (.error (.oracle e), asked)
  | .ok false => (.ok false, asked.note (.rejected targets))
  | .ok true =>
    match asked.program.nopAll targets with
    | .error e =>
      (.error (.edit e), { asked with program := asked.program.nopUntilRefused targets })
    | .ok program =>
      (.ok true, { asked with program, accepted := asked.accepted + 1 }.note (.committed targets))

/-- An attempt asks the oracle about one candidate, if it asks at all, and goes by the verdict. -/
theorem attempt_eq (oracle : Oracle σ ε) (indices : List Int) (run : Run σ) :
    attempt oracle indices run
      = match run.program.remaining? indices with
        | none => (.error .noSuchItem, run)
        | some [] => (.ok false, run)
        | some (idx :: rest) =>
          match run.program.nopAll (idx :: rest) with
          | .error e => (.error (.edit e), run)
          | .ok candidate =>
            run.settle (idx :: rest) (oracle.judge candidate run.state run.program) := rfl

/-- Whether an attempt asks the oracle: some of the instructions are live, and no live one is at an
index that is refused. -/
structure Program.Asks (program : Program) (indices : List Int) : Prop where
  live : indices.filter program.isLive ≠ []
  hasIndices : program.HasIndices (indices.filter program.isLive)

/-- What an attempt answers and leaves behind, by what the oracle says of the candidate. -/
inductive Attempted (oracle : Oracle σ ε) (indices : List Int) (run : Run σ) :
    Except (ReductionError ε) Bool → Run σ → Prop where
  /-- An index is that of no instruction. -/
  | refused (e : ReductionError ε) (hout : ¬run.program.HasIndices indices) :
    Attempted oracle indices run (.error e) run
  /-- No listed instruction is live. -/
  | idle (hidle : indices.filter run.program.isLive = []) :
    Attempted oracle indices run (.ok false) run
  /-- The oracle fails. -/
  | failed (e : ε) (state : σ) (hasks : run.program.Asks indices)
    (hanswer : oracle.judge (run.program.clear indices) run.state run.program
      = (.error e, state, run.program)) :
    Attempted oracle indices run (.error (.oracle e))
      { run with state, attempts := run.attempts + 1 }
  /-- The candidate is rejected. -/
  | rejected (state : σ) (hasks : run.program.Asks indices)
    (hanswer : oracle.judge (run.program.clear indices) run.state run.program
      = (.ok false, state, run.program)) :
    Attempted oracle indices run (.ok false)
      (Run.note { run with state, attempts := run.attempts + 1 }
        (.rejected (indices.filter run.program.isLive)))
  /-- The candidate is accepted, and is the program from now on. -/
  | accepted (state : σ) (hasks : run.program.Asks indices)
    (hanswer : oracle.judge (run.program.clear indices) run.state run.program
      = (.ok true, state, run.program)) :
    Attempted oracle indices run (.ok true)
      (Run.note { run with
        program := run.program.clear indices, state, attempts := run.attempts + 1,
        accepted := run.accepted + 1 } (.committed (indices.filter run.program.isLive)))

/-- **An attempt ends in one of these ways.** -/
theorem attempted {oracle : Oracle σ ε} (h : oracle.LeavesProgram) (indices : List Int)
    (run : Run σ) :
    Attempted oracle indices run (attempt oracle indices run).1 (attempt oracle indices run).2 := by
  rw [attempt_eq]
  cases hremaining : run.program.remaining? indices with
  | none =>
    refine .refused _ fun hindices => ?_
    rw [Program.exists_remaining? hindices] at hremaining
    cases hremaining
  | some targets =>
    have htargets := Program.remaining?_eq_some hremaining
    cases targets with
    | nil => exact .idle htargets.symm
    | cons idx rest =>
      dsimp only
      cases hcandidate : run.program.nopAll (idx :: rest) with
      | error e =>
        refine .refused _ fun hindices => ?_
        rw [htargets, Program.nopAll_filter_isLive hindices] at hcandidate
        cases hcandidate
      | ok candidate =>
        have hasks : run.program.Asks indices := by
          refine ⟨?_, ?_⟩
          · rw [← htargets]
            exact List.cons_ne_nil idx rest
          · rw [← htargets]
            exact (Program.nopAll_eq_ok_iff.mp hcandidate).1
        have hclear := Program.clear_of_nopAll hremaining hcandidate
        subst hclear
        dsimp only
        have hprogram := h (run.program.clear indices) run.state run.program
        rcases hjudge : oracle.judge (run.program.clear indices) run.state run.program with
          ⟨answer, state, program⟩
        rw [hjudge] at hprogram
        dsimp only at hprogram
        subst hprogram
        cases answer with
        | error e => exact .failed e state hasks hjudge
        | ok accepts =>
          cases accepts with
          | false =>
            rw [htargets]
            exact .rejected state hasks hjudge
          | true =>
            -- the edits that made the candidate succeed again
            rw [Run.settle]
            dsimp only
            rw [hcandidate, htargets]
            exact .accepted state hasks hjudge

/-- The program behind an attempt is the candidate if it was accepted, else the same. -/
theorem program_of_attempt {oracle : Oracle σ ε} (h : oracle.LeavesProgram) {indices : List Int}
    {run after : Run σ} {answer : Except (ReductionError ε) Bool}
    (hattempt : attempt oracle indices run = (answer, after)) :
    after.program
      = match answer with
        | .ok true => run.program.clear indices
        | _ => run.program := by
  have hattempted := attempted h indices run
  rw [hattempt] at hattempted
  cases hattempted with
  | refused e hout => rfl
  | idle hidle => rfl
  | failed e state hasks hanswer => rfl
  | rejected state hasks hanswer => rfl
  | accepted state hasks hanswer => rfl

/-- Two oracles that say the same of the candidate make the same of an attempt. -/
theorem attempt_congr {oracle oracle' : Oracle σ ε} {indices : List Int} {run : Run σ}
    (h : oracle.judge (run.program.clear indices) run.state run.program
      = oracle'.judge (run.program.clear indices) run.state run.program) :
    attempt oracle indices run = attempt oracle' indices run := by
  rw [attempt_eq, attempt_eq]
  cases hremaining : run.program.remaining? indices with
  | none => rfl
  | some targets =>
    cases targets with
    | nil => rfl
    | cons idx rest =>
      dsimp only
      cases hcandidate : run.program.nopAll (idx :: rest) with
      | error e => rfl
      | ok candidate =>
        dsimp only
        rw [Program.clear_of_nopAll hremaining hcandidate, h]

/-- A guard lets a well-formed candidate through. -/
theorem attempt_guarded {oracle : Oracle σ ε} {indices : List Int} {run : Run σ}
    (h : (run.program.clear indices).isWellFormed = true) (required : Bool) :
    attempt (oracle.guarded required) indices run = attempt oracle indices run := by
  refine attempt_congr ?_
  unfold Oracle.guarded
  dsimp only
  rw [h, Bool.not_true, Bool.and_false, if_neg Bool.false_ne_true]

end FlatCode
