import FlatCode.Proofs.Reduction.Restoring

/-!
# Going through the instructions

The reducer of instructions makes one trial for each instruction that it may remove, from the last
one to the first (`Passed`). What a trial asks about is the program at that time without the
instruction; a rejected instruction stays, and nothing is tried twice.

* `passed_of_removeInstructions` — a pass makes such trials
* `Passed.tried` — what a trial asks about, and what becomes of the instruction
* `exists_passed` — a pass of an oracle that goes by the candidate goes through
-/

namespace FlatCode

variable {σ ε : Type}

/-! ## Trials -/

/-- An attempt at one instruction: its place, the candidate that is asked about, and the answer. -/
structure Trial where
  place : Nat
  candidate : Program
  accepted : Bool

/-- How a trial is logged. -/
def Trial.entry (trial : Trial) : LogEntry :=
  if trial.accepted then .committed [(trial.place : Int)] else .rejected [(trial.place : Int)]

theorem Trial.entry_eq_rejected_iff {trial : Trial} {indices : List Int} :
    trial.entry = .rejected indices ↔ trial.accepted = false ∧ indices = [(trial.place : Int)] := by
  unfold Trial.entry
  cases trial.accepted with
  | true => simp
  | false => simp [eq_comm]

/-- Which trials a pass over the instructions in front of a place makes, and what it leaves of a
program. -/
inductive Passed : Nat → Program → List Trial → Program → Prop where
  /-- Nothing is in front of the place. -/
  | done (p : Program) : Passed 0 p [] p
  /-- The instruction is not tried. -/
  | skipped {n : Nat} {p q : Program} {trials : List Trial} {instr : Instruction}
    (hinstr : p.instructions[n]? = some instr) (hskip : instr.isCandidate = false)
    (hrest : Passed n p trials q) : Passed (n + 1) p trials q
  /-- The removal of the instruction is rejected. -/
  | rejected {n : Nat} {p q : Program} {trials : List Trial} {instr : Instruction}
    (hinstr : p.instructions[n]? = some instr) (htry : instr.isCandidate = true)
    (hrest : Passed n p trials q) :
    Passed (n + 1) p (⟨n, p.clear [(n : Int)], false⟩ :: trials) q
  /-- The instruction is removed. -/
  | accepted {n : Nat} {p q : Program} {trials : List Trial} {instr : Instruction}
    (hinstr : p.instructions[n]? = some instr) (htry : instr.isCandidate = true)
    (hrest : Passed n (p.clear [(n : Int)]) trials q) :
    Passed (n + 1) p (⟨n, p.clear [(n : Int)], true⟩ :: trials) q

section Passed

variable {p q : Program} {n m : Nat} {trials : List Trial} {instr : Instruction}

/-- A candidate is what is asked about, if it is tried. -/
theorem Program.filter_isLive_candidate (hinstr : p.instructions[n]? = some instr)
    (htry : instr.isCandidate = true) : [(n : Int)].filter p.isLive = [(n : Int)] := by
  have hlive := isLive_natCast_iff.mpr ⟨instr, hinstr, (Instruction.isCandidate_iff.mp htry).2.1⟩
  rw [List.filter_cons, if_pos hlive, List.filter_nil]

theorem Program.without_candidate (hinstr : p.instructions[n]? = some instr)
    (htry : instr.isCandidate = true) : p.without [(n : Int)] = p.clear [(n : Int)] := by
  rw [clear, filter_isLive_candidate hinstr htry]

theorem Passed.thinned (h : Passed n p trials q) : Thinned p q := by
  induction h with
  | done p => exact .refl p
  | skipped hinstr hskip hrest ih => exact ih
  | rejected hinstr htry hrest ih => exact ih
  | accepted hinstr htry hrest ih => exact (thinned_clear _ _).trans ih

/-- Behind the place nothing is tried. -/
theorem Passed.behind (h : Passed n p trials q) (hle : n ≤ m) :
    q.instructions[m]? = p.instructions[m]? := by
  induction h with
  | done p => rfl
  | skipped hinstr hskip hrest ih => exact ih (by omega)
  | rejected hinstr htry hrest ih => exact ih (by omega)
  | @accepted n p q trials instr hinstr htry hrest ih =>
    rw [ih (by omega), Program.instructions_clear]
    have hne : ¬((m : Int) ∈ [(n : Int)]) := by
      rw [List.mem_singleton]
      omega
    simp [hne]

/-- What a program has at the start, and each accepted candidate has, it has in the end. -/
theorem Passed.keeps (P : Program → Prop) (h : Passed n p trials q) (hp : P p)
    (hP : ∀ trial ∈ trials, trial.accepted = true → P trial.candidate) : P q := by
  induction h with
  | done p => exact hp
  | skipped hinstr hskip hrest ih => exact ih hp hP
  | rejected hinstr htry hrest ih =>
    exact ih hp fun other hother => hP other (List.mem_cons_of_mem _ hother)
  | accepted hinstr htry hrest ih =>
    exact ih (hP _ List.mem_cons_self rfl) fun other hother =>
      hP other (List.mem_cons_of_mem _ hother)

/-- **A trial asks about the program at that time without the instruction**, which stays if it is
rejected. The program at that time has what the program had at the start, or an accepted candidate
has. -/
theorem Passed.tried (P : Program → Prop) (h : Passed n p trials q) (hp : P p)
    (hP : ∀ trial ∈ trials, trial.accepted = true → P trial.candidate) {trial : Trial}
    (ht : trial ∈ trials) :
    ∃ now instr, P now ∧ Thinned p now ∧ Thinned now q ∧
      trial.candidate = now.clear [(trial.place : Int)] ∧
      now.instructions[trial.place]? = some instr ∧ instr.isCandidate = true ∧
      (trial.accepted = false → q.instructions[trial.place]? = some instr) := by
  induction h with
  | done p => cases ht
  | skipped hinstr hskip hrest ih => exact ih hp hP ht
  | @rejected n p q trials instr hinstr htry hrest ih =>
    rcases List.mem_cons.mp ht with rfl | ht
    · refine ⟨p, instr, hp, .refl p, hrest.thinned, rfl, hinstr, htry, fun _ => ?_⟩
      rw [hrest.behind (Nat.le_refl n)]
      exact hinstr
    · exact ih hp (fun other hother => hP other (List.mem_cons_of_mem _ hother)) ht
  | @accepted n p q trials instr hinstr htry hrest ih =>
    rcases List.mem_cons.mp ht with rfl | ht
    · refine ⟨p, instr, hp, .refl p, (thinned_clear p _).trans hrest.thinned, rfl, hinstr, htry,
        fun hfalse => ?_⟩
      cases hfalse
    · obtain ⟨now, instr, hnow, hthinned, hrest⟩ := ih (hP _ List.mem_cons_self rfl)
        (fun other hother => hP other (List.mem_cons_of_mem _ hother)) ht
      exact ⟨now, instr, hnow, (thinned_clear p _).trans hthinned, hrest⟩

/-- **What a pass leaves of the instructions that it may remove, it has rejected.** -/
theorem Passed.exists_trial (h : Passed n p trials q) (hm : m < n)
    (hinstr : q.instructions[m]? = some instr) (htry : instr.isCandidate = true) :
    ∃ trial ∈ trials, trial.place = m ∧ trial.accepted = false := by
  induction h with
  | done p => omega
  | @skipped n p q trials other hother hskip hrest ih =>
    rcases Nat.lt_succ_iff_lt_or_eq.mp hm with hlt | rfl
    · exact ih hlt hinstr
    · rw [hrest.behind (Nat.le_refl m), hother] at hinstr
      cases hinstr
      rw [hskip] at htry
      cases htry
  | @rejected n p q trials other hother htried hrest ih =>
    rcases Nat.lt_succ_iff_lt_or_eq.mp hm with hlt | rfl
    · obtain ⟨trial, ht, hplace⟩ := ih hlt hinstr
      exact ⟨trial, List.mem_cons_of_mem _ ht, hplace⟩
    · exact ⟨_, List.mem_cons_self, rfl, rfl⟩
  | @accepted n p q trials other hother htried hrest ih =>
    rcases Nat.lt_succ_iff_lt_or_eq.mp hm with hlt | rfl
    · obtain ⟨trial, ht, hplace⟩ := ih hlt hinstr
      exact ⟨trial, List.mem_cons_of_mem _ ht, hplace⟩
    · -- what was removed is none of these instructions any more
      have hnop := (Instruction.isCandidate_iff.mp htry).2.1
      rw [hrest.behind (Nat.le_refl m)] at hinstr
      obtain ⟨-, hmem⟩ := Program.of_live_clear hinstr hnop
      exact absurd (List.mem_singleton_self _) hmem

end Passed

/-! ## The trials of a pass -/

section Pass

variable {oracle : Oracle σ ε} {accepts : Program → Bool} {run after : Run σ} {n : Nat}

/-- An attempt at an instruction that may be removed is a trial. -/
theorem attempt_candidate (hleaves : oracle.LeavesProgram) {instr : Instruction} {answer : Bool}
    (hinstr : run.program.instructions[n]? = some instr) (htry : instr.isCandidate = true)
    (h : attempt oracle [(n : Int)] run = (.ok answer, after)) :
    after.program = (if answer then run.program.clear [(n : Int)] else run.program) ∧
      after.log = run.log ++ [Trial.entry ⟨n, run.program.clear [(n : Int)], answer⟩] ∧
      ∃ state current next,
        oracle.judge (run.program.clear [(n : Int)]) state current = (.ok answer, next) := by
  have hlive := Program.filter_isLive_candidate hinstr htry
  have hattempted := attempted hleaves [(n : Int)] run
  rw [h] at hattempted
  cases hattempted with
  | idle hidle =>
    rw [hlive] at hidle
    cases hidle
  | rejected state hasks hanswer =>
    refine ⟨rfl, ?_, _, _, _, hanswer⟩
    show run.log ++ [.rejected ([(n : Int)].filter run.program.isLive)] = _
    rw [hlive]
    rfl
  | accepted state hasks hanswer =>
    refine ⟨rfl, ?_, _, _, _, hanswer⟩
    show run.log ++ [.committed ([(n : Int)].filter run.program.isLive)] = _
    rw [hlive]
    rfl

/-- **A pass over instructions makes its trials**, logs each of them, and goes by the answers. -/
theorem passed_of_removeInstructions (hleaves : oracle.LeavesProgram)
    (h : removeInstructions oracle n run = (.ok (), after)) :
    ∃ trials, Passed n run.program trials after.program ∧
      after.log = run.log ++ trials.map Trial.entry ∧
      ∀ trial ∈ trials, ∃ state current next,
        oracle.judge trial.candidate state current = (.ok trial.accepted, next) := by
  induction n generalizing run with
  | zero =>
    cases h
    exact ⟨[], .done _, (List.append_nil _).symm, fun _ ht => by cases ht⟩
  | succ idx ih =>
    rw [removeInstructions] at h
    cases hinstr : run.program.instructions[idx]? with
    | none => simp [hinstr] at h
    | some instr =>
      rw [hinstr] at h
      dsimp only at h
      cases htry : instr.isCandidate with
      | false =>
        rw [htry, if_neg Bool.false_ne_true] at h
        obtain ⟨trials, hpassed, hlog, hjudged⟩ := ih h
        exact ⟨trials, .skipped hinstr htry hpassed, hlog, hjudged⟩
      | true =>
        rw [htry, if_pos rfl, attemptOne] at h
        rcases hattempt : attempt oracle [(idx : Int)] run with ⟨answer, now⟩
        rw [hattempt] at h
        cases answer with
        | error e => cases h
        | ok answer =>
          obtain ⟨hprogram, hentry, hjudge⟩ := attempt_candidate hleaves hinstr htry hattempt
          obtain ⟨trials, hpassed, hlog, hjudged⟩ := ih h
          rw [hprogram] at hpassed
          refine ⟨⟨idx, run.program.clear [(idx : Int)], answer⟩ :: trials, ?_, ?_, ?_⟩
          · cases answer with
            | false => exact .rejected hinstr htry hpassed
            | true => exact .accepted hinstr htry hpassed
          · rw [hlog, hentry, List.append_assoc]
            rfl
          · exact List.forall_mem_cons.mpr ⟨hjudge, hjudged⟩

/-- An oracle that always answers lets an attempt at instructions of the program answer. -/
theorem attempt_answers (h : oracle.GoesBy fun candidate => .ok (accepts candidate))
    {indices : List Int} (hindices : run.program.HasIndices indices) :
    ∃ answer after, attempt oracle indices run = (.ok answer, after) := by
  have hattempted := attempted h.leavesProgram indices run
  rcases hattempt : attempt oracle indices run with ⟨answer, after⟩
  rw [hattempt] at hattempted
  cases hattempted with
  | refused e hout => exact absurd hindices hout
  | idle hidle => exact ⟨_, _, rfl⟩
  | failed e state hasks hanswer =>
    have hverdict := h.answer_eq hanswer
    cases hverdict
  | rejected state hasks hanswer => exact ⟨_, _, rfl⟩
  | accepted state hasks hanswer => exact ⟨_, _, rfl⟩

theorem removeInstructions_answers (h : oracle.GoesBy fun candidate => .ok (accepts candidate))
    (hn : n ≤ run.program.size) : ∃ after, removeInstructions oracle n run = (.ok (), after) := by
  induction n generalizing run with
  | zero => exact ⟨run, rfl⟩
  | succ idx ih =>
    have hinstr : run.program.instructions[idx]? = some _ := List.getElem?_eq_getElem hn
    rw [removeInstructions, hinstr]
    dsimp only
    split
    · have hindices := Program.hasIndices_singleton hn
      obtain ⟨answer, now, hattempt⟩ := attempt_answers h hindices
      have hsize := ((attempt_counts h.leavesProgram [(idx : Int)]).counted run).thinned.size
      rw [hattempt] at hsize
      rw [attemptOne, hattempt]
      exact ih (by rw [hsize]; omega)
    · exact ih (by omega)

/-- **A pass of an oracle that always answers**: what it rejects is what it leaves of the
instructions that it may remove. -/
theorem exists_passed (h : oracle.GoesBy fun candidate => .ok (accepts candidate)) (run : Run σ) :
    ∃ trials after, Reducer.instructions.reduce oracle run = (.ok (), after) ∧
      after.log = run.log ++ trials.map Trial.entry ∧
      Passed run.program.size run.program trials after.program ∧
      ∀ trial ∈ trials, accepts trial.candidate = trial.accepted := by
  obtain ⟨after, hpass⟩ := removeInstructions_answers h (Nat.le_refl run.program.size)
  obtain ⟨trials, hpassed, hlog, hjudged⟩ := passed_of_removeInstructions h.leavesProgram hpass
  refine ⟨trials, after, hpass, hlog, hpassed, fun trial ht => ?_⟩
  obtain ⟨state, current, ⟨next, program⟩, hjudge⟩ := hjudged trial ht
  exact Except.ok.inj (h.answer_eq hjudge)

end Pass

end FlatCode
