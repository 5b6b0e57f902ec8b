import FlatCode.Proofs.Reduction.Safety

/-!
# The contract of an attempt

An attempt reaches the oracle (`Program.Reaches`) if every listed index selects an instruction,
counted from the end where it is negative, some of these are live, and no live one is listed by a
negative index. Then the oracle is asked once, about the program without what is listed, and the
attempt goes by its answer. Otherwise nothing happens at all.

* `attempt_of_reaches` — an attempt that reaches the oracle goes by its verdict
* `attempt_of_not_reaches` — any other changes nothing, and tells why
* `attempt_contract` — what an attempt answers, asks, counts and leaves behind
-/

namespace FlatCode

/-! ## Which attempts reach the oracle -/

namespace Program

variable {program : Program} {indices : List Int}

/-- Whether an attempt at the listed indices comes as far as the oracle. -/
structure Reaches (program : Program) (indices : List Int) : Prop where
  selects : ∀ idx ∈ indices, program.at? idx ≠ none
  live : ∃ idx ∈ indices, program.isLive idx = true
  nonneg : ∀ idx ∈ indices, program.isLive idx = true → 0 ≤ idx

/-- A live instruction that is listed by its place is in range. -/
theorem lt_size_of_isLive {idx : Int} (hidx : 0 ≤ idx) (h : program.isLive idx = true) :
    idx < program.size := by
  obtain ⟨n, rfl⟩ := Int.eq_ofNat_of_zero_le hidx
  obtain ⟨instr, hinstr, -⟩ := isLive_natCast_iff.mp h
  obtain ⟨hlt, -⟩ := List.getElem?_eq_some_iff.mp hinstr
  exact Int.ofNat_lt.mpr hlt

theorem Reaches.hasIndices (h : program.Reaches indices) :
    program.HasIndices (indices.filter program.isLive) := by
  intro idx hidx
  obtain ⟨hmem, hlive⟩ := List.mem_filter.mp hidx
  have hnonneg := h.nonneg idx hmem hlive
  exact ⟨hnonneg, lt_size_of_isLive hnonneg hlive⟩

theorem Reaches.remaining_ne_nil (h : program.Reaches indices) :
    indices.filter program.isLive ≠ [] := by
  obtain ⟨idx, hmem, hlive⟩ := h.live
  exact List.ne_nil_of_mem (List.mem_filter.mpr ⟨hmem, hlive⟩)

/-- The edits that make the candidate succeed. -/
theorem Reaches.nopAll_eq (h : program.Reaches indices) :
    program.nopAll (indices.filter program.isLive) = .ok (program.clear indices) :=
  nopAll_eq_ok_iff.mpr ⟨h.hasIndices, rfl⟩

/-- Several edits are refused at the first index that is out of range. -/
theorem exists_nopAll_eq_error (h : ¬program.HasIndices indices) :
    ∃ idx ∈ indices, ¬(0 ≤ idx ∧ idx < program.size) ∧
      program.nopAll indices = .error (.outOfRange idx) := by
  induction indices generalizing program with
  | nil => exact absurd (by simp [HasIndices]) h
  | cons idx rest ih =>
    by_cases hrange : 0 ≤ idx ∧ idx < program.size
    · have hnop : program.nop idx = .ok (program.set idx.toNat .nop) := if_pos hrange
      have hrest : ¬(program.set idx.toNat .nop).HasIndices rest := by
        intro hall
        exact h (List.forall_mem_cons.mpr ⟨hrange, by simpa [HasIndices] using hall⟩)
      obtain ⟨bad, hmem, hout, herror⟩ := ih hrest
      refine ⟨bad, List.mem_cons_of_mem _ hmem, by simpa using hout, ?_⟩
      rw [nopAll, List.foldlM_cons, hnop]
      exact herror
    · have hnop : program.nop idx = .error (.outOfRange idx) := if_neg hrange
      refine ⟨idx, List.mem_cons_self, hrange, ?_⟩
      rw [nopAll, List.foldlM_cons, hnop]
      rfl

end Program

section

variable {σ ε : Type} {oracle : Oracle σ ε} {indices : List Int} {run : Run σ}

/-- **An attempt that reaches the oracle goes by its verdict** about the program without what is
listed. -/
theorem attempt_of_reaches (h : run.program.Reaches indices) :
    attempt oracle indices run = run.settle (indices.filter run.program.isLive)
      (oracle.judge (run.program.clear indices) run.state run.program) := by
  have hnopAll := h.nopAll_eq
  rw [attempt_eq, Program.remaining?_of_selects h.selects]
  cases htargets : indices.filter run.program.isLive with
  | nil => exact absurd htargets h.remaining_ne_nil
  | cons idx rest =>
    rw [htargets] at hnopAll
    dsimp only
    rw [hnopAll]

/-- **An attempt that does not reach the oracle changes nothing**: an index selects nothing, or
there is nothing to remove, or a live instruction is listed by a negative index. -/
theorem attempt_of_not_reaches (oracle : Oracle σ ε) (h : ¬run.program.Reaches indices) :
    (attempt oracle indices run = (.error .noSuchItem, run) ∧
      ∃ idx ∈ indices, run.program.at? idx = none) ∨
    (attempt oracle indices run = (.ok false, run) ∧
      ∀ idx ∈ indices, run.program.isLive idx = false) ∨
    ∃ idx ∈ indices, attempt oracle indices run = (.error (.edit (.outOfRange idx)), run) ∧
      run.program.isLive idx = true ∧ idx < 0 := by
  rw [attempt_eq]
  cases hremaining : run.program.remaining? indices with
  | none => exact .inl ⟨rfl, Program.remaining?_eq_none_iff.mp hremaining⟩
  | some targets =>
    have hselects : ∀ idx ∈ indices, run.program.at? idx ≠ none := by
      intro idx hidx hnone
      rw [Program.remaining?_eq_none_iff.mpr ⟨idx, hidx, hnone⟩] at hremaining
      cases hremaining
    have htargets := Program.remaining?_eq_some hremaining
    cases targets with
    | nil =>
      refine .inr (.inl ⟨rfl, fun idx hidx => ?_⟩)
      simpa using List.filter_eq_nil_iff.mp htargets.symm idx hidx
    | cons first rest =>
      have hlive : ∀ idx ∈ first :: rest, idx ∈ indices ∧ run.program.isLive idx = true :=
        fun idx hidx => List.mem_filter.mp (htargets ▸ hidx)
      have hout : ¬run.program.HasIndices (first :: rest) := fun hall =>
        h ⟨hselects, ⟨first, hlive first List.mem_cons_self⟩, fun idx hidx hidxLive =>
          (hall idx (htargets ▸ List.mem_filter.mpr ⟨hidx, hidxLive⟩)).1⟩
      obtain ⟨idx, hmem, hrange, herror⟩ := Program.exists_nopAll_eq_error hout
      obtain ⟨hidx, hidxLive⟩ := hlive idx hmem
      refine .inr (.inr ⟨idx, hidx, ?_, hidxLive, ?_⟩)
      · dsimp only
        rw [herror]
      · have hlt := fun hnonneg => Program.lt_size_of_isLive hnonneg hidxLive
        omega

/-! ## The contract -/

/-- An attempt that reaches an oracle that leaves the program alone answers as the oracle does, and
changes the program only if the candidate is accepted. -/
theorem attempt_of_reaches_leaves (h : oracle.LeavesProgram)
    (hreaches : run.program.Reaches indices) :
    let verdict := oracle.judge (run.program.clear indices) run.state run.program
    let after := (attempt oracle indices run).2
    (attempt oracle indices run).1 = verdict.1.mapError .oracle ∧ after.state = verdict.2.1 ∧
      after.attempts = run.attempts + 1 ∧
      (verdict.1 = .ok true → after.program = run.program.clear indices ∧
        after.accepted = run.accepted + 1) ∧
      (verdict.1 ≠ .ok true → after.program = run.program ∧ after.accepted = run.accepted) := by
  have hprogram := h (run.program.clear indices) run.state run.program
  rw [attempt_of_reaches hreaches]
  rcases hjudge : oracle.judge (run.program.clear indices) run.state run.program with
    ⟨answer, state, program⟩
  rw [hjudge] at hprogram
  obtain rfl : program = run.program := hprogram
  unfold Run.settle
  cases answer with
  | error e => exact ⟨rfl, rfl, rfl, nofun, fun _ => ⟨rfl, rfl⟩⟩
  | ok accepts =>
    cases accepts with
    | false => exact ⟨rfl, rfl, rfl, nofun, fun _ => ⟨rfl, rfl⟩⟩
    | true =>
      dsimp only
      rw [hreaches.nopAll_eq]
      exact ⟨rfl, rfl, rfl, fun _ => ⟨rfl, rfl⟩, fun hne => absurd rfl hne⟩

/-- What an attempt owes to its caller: its answer, the run after it, with the questions that the
oracle was asked, and the candidate that it was asked about. -/
structure AttemptContract (oracle : Oracle σ ε) (indices : List Int) (run : Run σ)
    (candidate : Program) (answer : Except (ReductionError ε) Bool)
    (after : Run (σ × List (Question ε))) : Prop where
  /-- The candidate is as long as the program. -/
  size : candidate.size = run.program.size
  /-- It has removals where live instructions are listed, and is the program everywhere else. -/
  instructions : ∀ (n : Nat) (instr : Instruction), run.program.instructions[n]? = some instr →
    candidate.instructions[n]?
      = some (if (n : Int) ∈ indices ∧ instr.isNop = false then .nop else instr)
  /-- If the oracle is reached, it is asked once, about the candidate, and its verdict counts. -/
  asked : run.program.Reaches indices →
    let verdict := (oracle.judge candidate run.state run.program).1
    after.state.2 = [⟨candidate, run.program, verdict⟩] ∧ answer = verdict.mapError .oracle
  /-- Else it is not asked. -/
  silent : ¬run.program.Reaches indices → after.state.2 = []
  /-- Questions are counted. -/
  attempts : after.attempts = run.attempts + after.state.2.length
  /-- The attempt succeeds if something live is listed and the oracle accepts the candidate. -/
  succeeds_iff : answer = .ok true ↔ (∃ idx ∈ indices, run.program.isLive idx = true) ∧
    after.state.2 = [⟨candidate, run.program, .ok true⟩]
  /-- Then the program is the candidate. -/
  committed : answer = .ok true → after.program = candidate ∧ after.accepted = run.accepted + 1
  /-- Else it is as it was. -/
  untouched : answer ≠ .ok true → after.program = run.program ∧ after.accepted = run.accepted

variable {answer : Except (ReductionError ε) Bool} {after : Run (σ × List (Question ε))}

/-- An attempt that reaches the oracle, with the question that is written down. -/
theorem attempt_recorded_of_reaches (h : oracle.LeavesProgram)
    (hreaches : run.program.Reaches indices)
    (hattempt : attempt oracle.recorded indices (run.mapState fun state => (state, []))
      = (answer, after)) :
    let candidate := run.program.clear indices
    let verdict := (oracle.judge candidate run.state run.program).1
    after.state.2 = [⟨candidate, run.program, verdict⟩] ∧ answer = verdict.mapError .oracle ∧
      after.attempts = run.attempts + 1 ∧
      (verdict = .ok true → after.program = candidate ∧ after.accepted = run.accepted + 1) ∧
      (verdict ≠ .ok true → after.program = run.program ∧ after.accepted = run.accepted) := by
  obtain ⟨hanswer, hstate, hrest⟩ := @attempt_of_reaches_leaves _ _ oracle.recorded indices
    (run.mapState fun state => (state, [])) h.recorded hreaches
  rw [hattempt] at hanswer hstate hrest
  exact ⟨congrArg Prod.snd hstate, hanswer, hrest⟩

theorem contract_of_reaches (h : oracle.LeavesProgram) (hreaches : run.program.Reaches indices)
    (hattempt : attempt oracle.recorded indices (run.mapState fun state => (state, []))
      = (answer, after)) :
    AttemptContract oracle indices run (run.program.clear indices) answer after := by
  obtain ⟨hasked, hanswer, hattempts, haccepts, hrejects⟩ :=
    attempt_recorded_of_reaches h hreaches hattempt
  have hsucceeds : answer = .ok true ↔
      (oracle.judge (run.program.clear indices) run.state run.program).1 = .ok true := by
    rw [hanswer]
    cases (oracle.judge (run.program.clear indices) run.state run.program).1 with
    | error e => exact ⟨nofun, nofun⟩
    | ok accepts =>
      exact ⟨fun h => congrArg _ (Except.ok.inj h), fun h => congrArg _ (Except.ok.inj h)⟩
  refine ⟨Program.size_clear _ _, fun _ _ => Program.instruction_clear,
    fun _ => ⟨hasked, hanswer⟩, fun hnot => absurd hreaches hnot, ?_, ?_,
    fun hyes => haccepts (hsucceeds.mp hyes),
    fun hno => hrejects fun hyes => hno (hsucceeds.mpr hyes)⟩
  · rw [hasked]
    exact hattempts
  · rw [hsucceeds, hasked]
    constructor
    · intro hyes
      rw [hyes]
      exact ⟨hreaches.live, rfl⟩
    · rintro ⟨-, heq⟩
      exact congrArg Question.answer (List.cons.inj heq).1

theorem contract_of_not_reaches (hreaches : ¬run.program.Reaches indices)
    (hattempt : attempt oracle.recorded indices (run.mapState fun state => (state, []))
      = (answer, after)) :
    AttemptContract oracle indices run (run.program.clear indices) answer after := by
  have hend := @attempt_of_not_reaches _ _ indices (run.mapState fun state => (state, []))
    oracle.recorded hreaches
  rw [hattempt] at hend
  obtain ⟨hno, rfl⟩ : answer ≠ .ok true ∧ after = run.mapState fun state => (state, []) := by
    rcases hend with ⟨hend, -⟩ | ⟨hend, -⟩ | ⟨idx, -, hend, -⟩
    all_goals
      obtain ⟨rfl, rfl⟩ := Prod.mk.inj hend
      exact ⟨nofun, rfl⟩
  refine ⟨Program.size_clear _ _, fun _ _ => Program.instruction_clear,
    fun h => absurd h hreaches, fun _ => rfl, rfl, ⟨fun hyes => absurd hyes hno, ?_⟩,
    fun hyes => absurd hyes hno, fun _ => ⟨rfl, rfl⟩⟩
  rintro ⟨-, heq⟩
  cases heq

/-- **The contract of an attempt** is kept by every oracle that leaves the program alone, with any
list of indices, from any run; also when the attempt fails. Writing down the questions changes
nothing. To attempt one removal is to attempt a list of one. -/
theorem attempt_contract (h : oracle.LeavesProgram) (indices : List Int) (run : Run σ) :
    ∃ candidate answer after,
      attempt oracle.recorded indices (run.mapState fun state => (state, [])) = (answer, after) ∧
      attempt oracle indices run = (answer, after.mapState Prod.fst) ∧
      AttemptContract oracle indices run candidate answer after ∧
      ∀ idx, attemptOne oracle idx run = attempt oracle [idx] run := by
  have hinStep : InStep (fun run run' => run = run'.mapState Prod.fst) (attempt oracle indices)
      (attempt oracle.recorded indices) := by
    refine attempt_inStep (fun candidate state current => ?_) indices
    rfl
  obtain ⟨hanswer, hafter⟩ := hinStep run (run.mapState fun state => (state, [])) rfl
  rcases hattempt : attempt oracle.recorded indices (run.mapState fun state => (state, [])) with
    ⟨answer, after⟩
  rw [hattempt] at hanswer hafter
  refine ⟨run.program.clear indices, answer, after, rfl, Prod.ext hanswer hafter, ?_, fun _ => rfl⟩
  by_cases hreaches : run.program.Reaches indices
  · exact contract_of_reaches h hreaches hattempt
  · exact contract_of_not_reaches hreaches hattempt

end

/-- A program with a remembered removal, a group and another removal. -/
def sampleAttempted : Program :=
  ⟨[⟨.nop, [.int 1]⟩, ⟨.ofSimple "LoadInteger", [.int 7]⟩, ⟨.ofBegin "BeginIf", []⟩,
    ⟨.ofEnd "EndIf", []⟩, .nop]⟩

/-- Removals are skipped wherever they are listed, and a live instruction may be listed twice; but
not from the end. -/
theorem attempt_contract_sample :
    let oracle : Oracle Unit Empty := (Oracle.ofPredicate fun _ => true).guarded true
    let run : Run Unit := { program := sampleAttempted, state := () }
    (∃ after, attempt oracle [3, 0, 2, 2, -1] run = (.ok true, after) ∧
      after.program.names = (["Nop", "LoadInteger", "Nop", "Nop", "Nop"] : List Text) ∧
      after.program.instructions[0]? = some ⟨.nop, [.int 1]⟩ ∧ after.accepted = 1) ∧
    ∃ after, attempt oracle [1, -2] run = (.error (.edit (.outOfRange (-2))), after) ∧
      after.program = sampleAttempted ∧ after.attempts = 0 := by
  intro oracle run
  have hleaves : oracle.LeavesProgram := Oracle.LeavesProgram.guarded (fun _ _ _ => rfl) true
  constructor
  · obtain ⟨candidate, answer, after, -, hplain, hcontract, -⟩ :=
      attempt_contract hleaves [3, 0, 2, 2, -1] run
    have hanswer : (attempt oracle [3, 0, 2, 2, -1] run).1 = .ok true := rfl
    have hnames : (attempt oracle [3, 0, 2, 2, -1] run).2.program.names
        = (["Nop", "LoadInteger", "Nop", "Nop", "Nop"] : List Text) := rfl
    rw [hplain] at hanswer hnames
    obtain ⟨hprogram, haccepted⟩ := hcontract.committed hanswer
    refine ⟨after.mapState Prod.fst, hplain.trans (Prod.ext hanswer rfl), hnames, ?_, haccepted⟩
    have hfirst := hcontract.instructions 0 _ rfl
    rwa [← hprogram] at hfirst
  · obtain ⟨candidate, answer, after, -, hplain, hcontract, -⟩ :=
      attempt_contract hleaves [1, -2] run
    have hanswer : (attempt oracle [1, -2] run).1 = .error (.edit (.outOfRange (-2))) := rfl
    rw [hplain] at hanswer
    obtain rfl : answer = .error (.edit (.outOfRange (-2))) := hanswer
    refine ⟨after.mapState Prod.fst, hplain, (hcontract.untouched nofun).1, ?_⟩
    have hreaches : ¬run.program.Reaches [1, -2] := fun h =>
      absurd (h.nonneg (-2) (by decide) (by decide)) (by decide)
    have hattempts := hcontract.attempts
    rw [hcontract.silent hreaches] at hattempts
    exact hattempts

end FlatCode
