import FlatCode.Proofs.Reduction.InStep

/-!
# Counting what is accepted

Each accepted candidate has fewer live instructions than the program, and without an accepted
candidate the program stays as it is. So the number of accepted candidates is at most the number of
instructions that are removed (`Counted`), and the program has changed exactly if something was
accepted.

* `Thinned.payload_eq` — the instructions that are removed are the difference of the payloads
* `minimize_counted` — what the counts of a reduction say about its program
-/

namespace FlatCode

variable {σ ε : Type}

/-! ## Removed places -/

/-- The places whose instructions do something in a program and nothing in another. -/
def Program.removedPlaces (program after : Program) : List Nat :=
  (List.range program.size).filter fun n =>
    program.instructions[n]?.any (fun instr => !instr.isNop) &&
      after.instructions[n]?.any Instruction.isNop

theorem Program.mem_removedPlaces {p q : Program} {n : Nat} : n ∈ p.removedPlaces q ↔
    (∃ instr, p.instructions[n]? = some instr ∧ instr.isNop = false) ∧
      ∃ instr, q.instructions[n]? = some instr ∧ instr.isNop = true := by
  rw [removedPlaces, List.mem_filter, List.mem_range, Bool.and_eq_true, Option.any_eq_true,
    Option.any_eq_true]
  constructor
  · rintro ⟨-, ⟨instr, hinstr, hlive⟩, hremoved⟩
    exact ⟨⟨instr, hinstr, by simpa using hlive⟩, hremoved⟩
  · rintro ⟨⟨instr, hinstr, hlive⟩, hremoved⟩
    obtain ⟨hlt, -⟩ := List.getElem?_eq_some_iff.mp hinstr
    exact ⟨hlt, ⟨instr, hinstr, by simp [hlive]⟩, hremoved⟩

theorem Program.length_removedPlaces_cons (a b : Instruction) (as bs : List Instruction) :
    (Program.removedPlaces ⟨a :: as⟩ ⟨b :: bs⟩).length
      = (if !a.isNop && b.isNop then 1 else 0) + (Program.removedPlaces ⟨as⟩ ⟨bs⟩).length := by
  simp only [removedPlaces, size, List.length_cons, List.range_succ_eq_map,
    ← List.countP_eq_length_filter, List.countP_cons, List.countP_map, Function.comp_def,
    Nat.succ_eq_add_one, List.getElem?_cons_zero, List.getElem?_cons_succ, Option.any_some]
  omega

/-- **As many instructions less do something as there are removed places.** -/
theorem Thinned.payload_eq {p q : Program} (h : Thinned p q) :
    p.payload = q.payload + (p.removedPlaces q).length := by
  rcases p with ⟨as⟩
  rcases q with ⟨bs⟩
  induction as generalizing bs with
  | nil =>
    obtain rfl := List.eq_nil_of_length_eq_zero h.size
    rfl
  | cons a as ih =>
    cases bs with
    | nil => cases h.size
    | cons b bs =>
      obtain ⟨hfirst, hrest⟩ := thinned_cons_iff.mp h
      have hpayload := ih bs hrest
      unfold Program.payload at hpayload ⊢
      rw [Program.length_removedPlaces_cons, List.countP_cons, List.countP_cons]
      rcases hfirst with rfl | ⟨hlive, rfl⟩
      · cases b.isNop <;> simp at hpayload ⊢ <;> omega
      · have hnop : Instruction.nop.isNop = true := rfl
        simp [hlive, hnop] at hpayload ⊢
        omega

/-! ## Accepted candidates -/

/-- Removing live instructions leaves fewer of them. -/
theorem Program.Asks.payload_lt {program : Program} {indices : List Int}
    (h : program.Asks indices) : (program.clear indices).payload < program.payload := by
  obtain ⟨idx, hidx⟩ := List.exists_mem_of_ne_nil _ h.live
  obtain ⟨hnonneg, -⟩ := h.hasIndices idx hidx
  obtain ⟨hmem, hlive⟩ := List.mem_filter.mp hidx
  obtain ⟨n, rfl⟩ := Int.eq_ofNat_of_zero_le hnonneg
  obtain ⟨instr, hinstr, hlive⟩ := isLive_natCast_iff.mp hlive
  refine Nat.lt_of_not_le fun hle => ?_
  -- if as many were left, this one would be left too
  have hall := ((thinned_clear program indices).countP _ rfl).2.mp hle
  have hkept := hall n instr hinstr (by rw [hlive]; rfl)
  rw [instructions_clear, hinstr, Option.map_some, if_pos ⟨hmem, hlive⟩] at hkept
  cases hkept
  cases hlive

/-- What the number of accepted candidates of a run says about its program, from a start on. -/
structure Counted (start run : Run σ) : Prop where
  accepted_le : start.accepted ≤ run.accepted
  attempts_le : run.accepted + start.attempts ≤ start.accepted + run.attempts
  removed_le : run.accepted + run.program.payload ≤ start.accepted + start.program.payload
  thinned : Thinned start.program run.program
  unchanged : run.accepted = start.accepted → run.program = start.program

theorem Counted.refl (run : Run σ) : Counted run run :=
  ⟨Nat.le_refl _, Nat.le_refl _, Nat.le_refl _, .refl _, fun _ => rfl⟩

theorem Counted.note {start run : Run σ} (h : Counted start run) (entry : LogEntry) :
    Counted start (run.note entry) :=
  ⟨h.accepted_le, h.attempts_le, h.removed_le, h.thinned, h.unchanged⟩

/-- A candidate that was asked about and not accepted only counts as an attempt. -/
theorem Counted.asked {start run : Run σ} (h : Counted start run) (state : σ) :
    Counted start { run with state, attempts := run.attempts + 1 } :=
  ⟨h.accepted_le, Nat.le_succ_of_le h.attempts_le, h.removed_le, h.thinned, h.unchanged⟩

/-- **The program has changed exactly if something was accepted.** -/
theorem Counted.accepted_eq_iff {start run : Run σ} (h : Counted start run) :
    run.accepted = start.accepted ↔ run.program = start.program := by
  refine ⟨h.unchanged, fun hprogram => ?_⟩
  have hle := h.accepted_le
  have hremoved := h.removed_le
  rw [hprogram] at hremoved
  omega

theorem Counted.payload_eq_iff {start run : Run σ} (h : Counted start run) :
    run.program.payload = start.program.payload ↔ run.program = start.program := by
  refine ⟨fun hpayload => h.unchanged ?_, congrArg Program.payload⟩
  have hle := h.accepted_le
  have hremoved := h.removed_le
  omega

/-- **An accepted candidate counts once, and is a smaller program.** -/
theorem attempt_keeps_counted {oracle : Oracle σ ε} (h : oracle.LeavesProgram) (start : Run σ)
    (indices : List Int) : Keeps (Counted start) (attempt oracle indices) := by
  refine attempt_keeps h fun run answer after hattempted hrun => ?_
  cases hattempted with
  | refused e hout => exact hrun
  | idle hidle => exact hrun
  | failed e state hasks hanswer => exact hrun.asked state
  | rejected state hasks hanswer => exact (hrun.asked state).note _
  | accepted state hasks hanswer =>
    have hlt := hasks.payload_lt
    have hle := hrun.accepted_le
    have hattempts := hrun.attempts_le
    have hremoved := hrun.removed_le
    refine ⟨?_, ?_, ?_, hrun.thinned.trans (thinned_clear run.program indices), ?_⟩
    · change start.accepted ≤ run.accepted + 1
      omega
    · change run.accepted + 1 + start.attempts ≤ start.accepted + (run.attempts + 1)
      omega
    · change run.accepted + 1 + (run.program.clear indices).payload ≤ _
      omega
    · intro hsame
      change run.accepted + 1 = start.accepted at hsame
      omega

theorem runReducers_counted {oracle : Oracle σ ε} (h : oracle.LeavesProgram) (run : Run σ)
    (reducers : List Reducer) (round : Nat) :
    Counted run (runReducers oracle round reducers run).2 :=
  runReducers_keeps (fun _ entry hrun => hrun.note entry) (attempt_keeps_counted h run) reducers
    round run (.refl run)

/-- **A reduction has changed its program exactly if it accepted something.** -/
theorem minimize_counted {oracle : Oracle σ ε} (h : oracle.LeavesProgram) (run : Run σ)
    (reducers : List Reducer) (maxRounds : Int) :
    Counted run (minimize oracle reducers maxRounds run).2 :=
  minimize_keeps (fun _ entry hrun => hrun.note entry) (attempt_keeps_counted h run) reducers
    maxRounds run (.refl run)

end FlatCode
