import FlatCode.Proofs.Reduction.Quiet

/-!
# How many rounds a reduction runs

Each round but the last one accepts something, and each accepted candidate removes an instruction.
So the rounds are bounded by the instructions that are removed, and a reduction that stops short of
its bound has ended with a round that accepted nothing. If the oracle goes by the candidate, nothing
will be accepted in a round of another reduction either.

* `rounds_spec` — how many rounds are run, and what the last one has accepted
* `minimize_of_spent` — a reduction of a program in which all reducers are spent
* `minimize_bounds` — the numbers of a reduction, and what another one does to its program
-/

namespace FlatCode

variable {σ ε : Type}

section Rounds

variable {oracle : Oracle σ ε} {reducers : List Reducer} {run after : Run σ}

/-- What the number of rounds says about some further rounds behind those that are done. -/
structure RoundsSpec (oracle : Oracle σ ε) (reducers : List Reducer) (further done count : Nat)
    (run after : Run σ) : Prop where
  done_le : done ≤ count
  le_further : count ≤ done + further
  done_lt : 0 < further → done < count
  le_accepted : count + run.accepted ≤ done + 1 + after.accepted
  quiet_last : count < done + further → ∃ (round : Nat) (last : Run σ),
    last.program = after.program ∧ Quiet (runReducers oracle round reducers) last

/-- **Each round but the last one accepts something**, and if fewer rounds are run than there might
be, the last one accepts nothing. -/
theorem rounds_spec (hleaves : oracle.LeavesProgram) {further done count : Nat}
    (h : rounds oracle reducers further done run = (.ok count, after)) :
    RoundsSpec oracle reducers further done count run after := by
  induction further generalizing done run with
  | zero =>
    cases h
    exact ⟨Nat.le_refl _, Nat.le_refl _, fun hpos => by omega, by omega,
      fun hlt => by omega⟩
  | succ further ih =>
    have hcounted := (runReducers_counts hleaves (done + 1) reducers).counted run
    rw [rounds] at h
    rcases hround : runReducers oracle (done + 1) reducers run with ⟨answer, now⟩
    rw [hround] at h hcounted
    have hle : run.accepted ≤ now.accepted := hcounted.accepted_le
    cases answer with
    | error e => cases h
    | ok u =>
      dsimp only at h hcounted
      by_cases hchanged : now.accepted - run.accepted = 0
      · rw [if_pos hchanged] at h
        cases h
        have hsame : now.accepted = run.accepted := by omega
        refine ⟨by omega, by omega, fun _ => by omega, ?_, fun _ => ⟨done + 1, run, ?_, ?_⟩⟩
        · show done + 1 + run.accepted ≤ done + 1 + now.accepted
          omega
        · exact (hcounted.unchanged hsame).symm
        · exact ⟨u, now, hround, hsame⟩
      · rw [if_neg hchanged] at h
        have hrest := ih h
        have hfirst := hrest.done_le
        have hlast := hrest.le_further
        have haccepted : count + now.accepted ≤ done + 1 + 1 + after.accepted := hrest.le_accepted
        exact ⟨by omega, by omega, fun _ => by omega, by omega,
          fun hlt => hrest.quiet_last (by omega)⟩

/-- A reduction that answers has run its rounds. -/
theorem rounds_of_minimize {maxRounds : Int} {outcome : Outcome}
    (h : minimize oracle reducers maxRounds run = (.ok outcome, after)) :
    1 ≤ maxRounds ∧ ∃ count, rounds oracle reducers maxRounds.toNat 0 run = (.ok count, after) ∧
      outcome = ⟨count, after.attempts - run.attempts, after.accepted - run.accepted,
        run.program.payload - after.program.payload⟩ := by
  unfold minimize at h
  by_cases hmax : maxRounds < 1
  · rw [if_pos hmax] at h
    cases h
  · rw [if_neg hmax] at h
    refine ⟨by omega, ?_⟩
    rcases hrounds : rounds oracle reducers maxRounds.toNat 0 run with ⟨answer, now⟩
    rw [hrounds] at h
    cases answer with
    | error e => cases h
    | ok count =>
      cases h
      exact ⟨count, rfl, rfl⟩

section Spent

variable {verdict : Program → Except ε Bool}

/-- Where all reducers are spent, the next round is the last one. -/
theorem rounds_of_spent (h : oracle.GoesBy verdict)
    (hspent : ∀ reducer ∈ reducers, reducer.Spent verdict run.program) (further done : Nat) :
    ∃ after, rounds oracle reducers (further + 1) done run = (.ok (done + 1), after) ∧
      after.program = run.program ∧ after.accepted = run.accepted := by
  obtain ⟨u, now, hround, haccepted⟩ := (runReducers_quiet_iff h (done + 1) reducers).mpr hspent
  have hprogram := (runReducers_counts h.leavesProgram (done + 1) reducers).program_eq hround
    haccepted
  rw [rounds, hround]
  dsimp only
  rw [haccepted, Nat.sub_self, if_pos rfl]
  exact ⟨_, rfl, hprogram, haccepted⟩

/-- **Where all reducers are spent, a reduction runs one round and accepts nothing.** -/
theorem minimize_of_spent (h : oracle.GoesBy verdict)
    (hspent : ∀ reducer ∈ reducers, reducer.Spent verdict run.program) {maxRounds : Int}
    (hmax : 1 ≤ maxRounds) :
    ∃ outcome after, minimize oracle reducers maxRounds run = (.ok outcome, after) ∧
      after.program = run.program ∧ outcome.rounds = 1 ∧ outcome.accepted = 0 ∧
      outcome.removed = 0 := by
  obtain ⟨further, hfurther⟩ : ∃ further, maxRounds.toNat = further + 1 :=
    ⟨maxRounds.toNat - 1, by omega⟩
  obtain ⟨after, hrounds, hafter, hcount⟩ := rounds_of_spent h hspent further 0
  unfold minimize
  rw [if_neg (by omega), hfurther, hrounds]
  refine ⟨_, after, rfl, hafter, rfl, ?_, ?_⟩
  · show after.accepted - run.accepted = 0
    omega
  · show (run.program.payload : Int) - after.program.payload = 0
    rw [hafter]
    omega

end Spent

/-- **The numbers of a reduction.** It accepts no more than it asks about, and no more than it
removes; what it removes are the instructions that did something before and do nothing now; and it
runs at least one round, at most one more than it removes instructions. If the oracle goes by the
candidate and fewer rounds were run than allowed, as is the case where the bound is above the number
of instructions by two, then another reduction of the program that is left does nothing to it. -/
theorem minimize_bounds (hleaves : oracle.LeavesProgram) {maxRounds : Int} {outcome : Outcome}
    (h : minimize oracle reducers maxRounds run = (.ok outcome, after)) :
    (outcome.accepted ≤ outcome.attempts ∧ outcome.accepted ≤ outcome.removed ∧
      outcome.removed = (run.program.removedPlaces after.program).length ∧
      1 ≤ outcome.rounds ∧ outcome.rounds ≤ min maxRounds (outcome.removed + 1)) ∧
    (run.program.payload + 2 ≤ maxRounds → outcome.rounds < maxRounds) ∧
    ∀ verdict, oracle.GoesBy verdict → outcome.rounds < maxRounds →
      ∀ (again : Run σ) (more : Int), again.program = after.program → 1 ≤ more →
        ∃ idle last, minimize oracle reducers more again = (.ok idle, last) ∧
          last.program = after.program ∧ idle.rounds = 1 ∧ idle.accepted = 0 ∧
          idle.removed = 0 := by
  obtain ⟨hmax, count, hrounds, rfl⟩ := rounds_of_minimize h
  have hspec := rounds_spec hleaves hrounds
  have hcounted := minimize_counted hleaves run reducers maxRounds
  rw [h] at hcounted
  dsimp only at hcounted ⊢
  have haccepted := hcounted.accepted_le
  have hattempts := hcounted.attempts_le
  have hremoved := hcounted.removed_le
  have hpayload := hcounted.thinned.payload_eq
  have hpositive := hspec.done_lt (by omega)
  have hfurther := hspec.le_further
  have hrounded := hspec.le_accepted
  refine ⟨⟨by omega, by omega, by omega, by omega, by omega⟩, fun _ => by omega, ?_⟩
  intro verdict hverdict hlt again more hagain hmore
  obtain ⟨round, last, hlast, hquiet⟩ := hspec.quiet_last (by omega)
  rw [runReducers_quiet_iff hverdict, hlast, ← hagain] at hquiet
  rw [← hagain]
  exact minimize_of_spent hverdict hquiet hmore

end Rounds

/-- The numbers for a program of which the oracle keeps one instruction: the second round accepts
nothing, and the third one that was allowed is not run. -/
theorem minimize_bounds_kept :
    let program : Program := ⟨[⟨.ofSimple "LoadInteger", [.int 1]⟩, ⟨.ofSimple "LoadString", []⟩,
      ⟨.ofSimple "LoadInteger", [.int 2]⟩]⟩
    let oracle : Oracle Unit String := Oracle.keeping [("LoadString", 1)]
    ∃ outcome after, minimize oracle Reducer.standard 3 { program, state := () }
        = (.ok outcome, after) ∧ outcome = ⟨2, 4, 2, 2⟩ ∧
      after.program.names = ["Nop", "LoadString", "Nop"] ∧
      ∃ idle last, minimize oracle Reducer.standard 5 { program := after.program, state := () }
          = (.ok idle, last) ∧
        last.program = after.program ∧ idle.rounds = 1 ∧ idle.accepted = 0 := by
  intro program oracle
  have horacle := Oracle.goesBy_ofPredicate (σ := Unit) (ε := String)
    (Oracle.keepsAll [("LoadString", 1)])
  obtain ⟨outcome, after, hminimize, houtcome, hnames⟩ : ∃ outcome after,
      minimize oracle Reducer.standard 3 { program, state := () } = (.ok outcome, after) ∧
      outcome = ⟨2, 4, 2, 2⟩ ∧ after.program.names = ["Nop", "LoadString", "Nop"] :=
    ⟨_, _, rfl, rfl, rfl⟩
  obtain ⟨-, -, hagain⟩ := minimize_bounds horacle.leavesProgram hminimize
  have hfewer : (outcome.rounds : Int) < 3 := by
    rw [houtcome]
    decide
  obtain ⟨idle, last, hidle, hlast, hrounds, haccepted, -⟩ :=
    hagain _ horacle hfewer { program := after.program, state := () } 5 rfl (by decide)
  exact ⟨outcome, after, hminimize, houtcome, hnames, idle, last, hidle, hlast, hrounds, haccepted⟩

end FlatCode
