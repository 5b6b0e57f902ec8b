import FlatCode.Proofs.Reduction.Contract
import FlatCode.Proofs.Reduction.InstructionPass

/-!
# The order of attempts

The reducer of instructions reads the program that it is editing. That makes no difference to what
it visits: at a place it has edited nothing but places behind it, so the instruction there is the
one of the start. It visits the places of the instructions that it may remove, last first, and at
each the oracle is asked once, about the program of the start without the instruction there and
without those that have been removed before (`Swept`). A failure of the oracle ends the visits.

* `swept_of_removeInstructions` — a pass makes these visits, and what a transcript, the log and the
  counts say of them
* `Swept.question` — what a visit asks about, by the visits before it
* `reduce_instructions_inOrder` — the visits of a pass, from any run, with any oracle
-/

namespace FlatCode

variable {σ ε : Type}

/-! ## The places that are visited -/

namespace Program

variable {p : Program} {n m : Nat}

/-- The places, in front of a place, of the instructions that may be removed, last first. -/
def candidates (p : Program) (n : Nat) : List Nat :=
  (List.range n).reverse.filter fun k => p.instructions[k]?.any Instruction.isCandidate

theorem candidates_succ (p : Program) (n : Nat) : p.candidates (n + 1)
    = if p.instructions[n]?.any Instruction.isCandidate then n :: p.candidates n
      else p.candidates n := by
  rw [candidates, List.range_succ, List.reverse_concat, List.filter_cons]
  rfl

theorem mem_candidates : m ∈ p.candidates n ↔
    m < n ∧ ∃ instr, p.instructions[m]? = some instr ∧ instr.isCandidate = true := by
  rw [candidates, List.mem_filter, List.mem_reverse, List.mem_range, Option.any_eq_true]

/-- Later places come first. -/
theorem pairwise_candidates (p : Program) (n : Nat) : (p.candidates n).Pairwise (· > ·) :=
  (List.pairwise_reverse.mpr List.pairwise_lt_range).filter _

/-- Removing an instruction changes nothing in front of it. -/
theorem candidates_without (p : Program) (n : Nat) :
    (p.without [(n : Int)]).candidates n = p.candidates n := by
  refine List.filter_congr fun k hk => ?_
  have hlt : k < n := List.mem_range.mp (List.mem_reverse.mp hk)
  have hne : ¬(k : Int) ∈ [(n : Int)] := by
    rw [List.mem_singleton]
    omega
  rw [instructions_without]
  simp [hne]

end Program

/-! ## Visits -/

/-- A visit to an instruction that may be removed: its place, and what the oracle is asked there. -/
structure Visit (ε : Type) where
  place : Nat
  question : Question ε

/-- Whether the oracle accepts that the instruction is removed. -/
def Visit.removes (visit : Visit ε) : Bool :=
  match visit.question.answer with
  | .ok true => true
  | _ => false

/-- How a visit is logged. -/
def Visit.entries (visit : Visit ε) : List LogEntry :=
  match visit.question.answer with
  | .ok true => [.committed [(visit.place : Int)]]
  | .ok false => [.rejected [(visit.place : Int)]]
  | .error _ => []

/-- The places of the instructions that are removed in visits. -/
def removals (visits : List (Visit ε)) : List Int :=
  (visits.filter Visit.removes).map fun visit => (visit.place : Int)

/-- Which visits are made to listed places of a program, and what they leave of it: at each the
oracle is asked about the program without the instruction there, and the program is that candidate
if the oracle accepts it. -/
inductive Swept : Program → List Nat → List (Visit ε) → Program → Prop where
  /-- No place is left. -/
  | done (p : Program) : Swept p [] [] p
  /-- The oracle accepts the candidate. -/
  | removed {p q : Program} {n : Nat} {places : List Nat} {visits : List (Visit ε)}
    (hrest : Swept (p.without [(n : Int)]) places visits q) :
    Swept p (n :: places) (⟨n, p.without [(n : Int)], p, .ok true⟩ :: visits) q
  /-- The oracle rejects the candidate. -/
  | kept {p q : Program} {n : Nat} {places : List Nat} {visits : List (Visit ε)}
    (hrest : Swept p places visits q) :
    Swept p (n :: places) (⟨n, p.without [(n : Int)], p, .ok false⟩ :: visits) q
  /-- The oracle fails, and no further place is visited. -/
  | failed {p : Program} {n : Nat} {places : List Nat} (e : ε) :
    Swept p (n :: places) [⟨n, p.without [(n : Int)], p, .error e⟩] p

namespace Swept

variable {p q : Program} {places : List Nat} {visits : List (Visit ε)}

/-- Places are visited in their order. -/
theorem places_prefix (h : Swept p places visits q) : visits.map Visit.place <+: places := by
  induction h with
  | done p => exact List.prefix_refl _
  | removed hrest ih => exact List.cons_prefix_cons.mpr ⟨rfl, ih⟩
  | kept hrest ih => exact List.cons_prefix_cons.mpr ⟨rfl, ih⟩
  | failed e => exact List.cons_prefix_cons.mpr ⟨rfl, List.nil_prefix⟩

/-- Unless the oracle fails, all places are visited. -/
theorem places_eq (h : Swept p places visits q)
    (hanswers : ∀ visit ∈ visits, ∃ accepts, visit.question.answer = .ok accepts) :
    visits.map Visit.place = places := by
  induction h with
  | done p => rfl
  | removed hrest ih => exact congrArg (_ :: ·) (ih (List.forall_mem_cons.mp hanswers).2)
  | kept hrest ih => exact congrArg (_ :: ·) (ih (List.forall_mem_cons.mp hanswers).2)
  | failed e =>
    obtain ⟨accepts, hanswer⟩ := hanswers _ List.mem_cons_self
    cases hanswer

/-- **What a visit asks about**: the program without what has been removed before is at hand, and
the oracle sees it without the instruction that is visited. -/
theorem question (h : Swept p places visits q) {earlier later : List (Visit ε)} {visit : Visit ε}
    (hvisits : visits = earlier ++ visit :: later) :
    visit.question.current = p.without (removals earlier) ∧
      visit.question.candidate = p.without (removals earlier ++ [(visit.place : Int)]) := by
  induction h generalizing earlier with
  | done p => simp at hvisits
  | @removed p q n places visits hrest ih =>
    cases earlier with
    | nil =>
      cases hvisits
      exact ⟨p.without_nil.symm, rfl⟩
    | cons first earlier =>
      cases hvisits
      -- what is removed first is removed from all that is asked about later
      obtain ⟨hcurrent, hcandidate⟩ := ih rfl
      rw [hcurrent, hcandidate, Program.without_without, Program.without_without]
      exact ⟨rfl, rfl⟩
  | @kept p q n places visits hrest ih =>
    cases earlier with
    | nil =>
      cases hvisits
      exact ⟨p.without_nil.symm, rfl⟩
    | cons first earlier =>
      cases hvisits
      obtain ⟨hcurrent, hcandidate⟩ := ih rfl
      exact ⟨hcurrent, hcandidate⟩
  | @failed p n places e =>
    obtain ⟨rfl, heq⟩ | ⟨first, hfirst, hrest⟩ := List.append_eq_cons_iff.mp hvisits.symm
    · cases heq
      exact ⟨p.without_nil.symm, rfl⟩
    · simp at hrest

/-- What visits leave is the program without what is removed in them. -/
theorem program_eq (h : Swept p places visits q) : q = p.without (removals visits) := by
  induction h with
  | done p => exact p.without_nil.symm
  | @removed p q n places visits hrest ih =>
    rw [ih, Program.without_without]
    rfl
  | kept hrest ih => exact ih
  | @failed p n places e => exact p.without_nil.symm

end Swept

/-! ## The visits of a pass -/

/-- Whether a run, with its transcript, is what another one is after some visits, apart from the
program. -/
structure Records (run after : Run (σ × List (Question ε))) (visits : List (Visit ε)) : Prop where
  asked : after.state.2 = run.state.2 ++ visits.map Visit.question
  logged : after.log = run.log ++ visits.flatMap Visit.entries
  attempts : after.attempts = run.attempts + visits.length
  accepted : after.accepted = run.accepted + visits.countP Visit.removes

section Pass

variable {oracle : Oracle σ ε} {run after : Run (σ × List (Question ε))} {n : Nat}

theorem Records.refl (run : Run (σ × List (Question ε))) : Records run run [] :=
  ⟨(List.append_nil _).symm, (List.append_nil _).symm, rfl, rfl⟩

/-- Visits behind others. -/
theorem Records.append {mid : Run (σ × List (Question ε))} {earlier later : List (Visit ε)}
    (h : Records run mid earlier) (h' : Records mid after later) :
    Records run after (earlier ++ later) := by
  refine ⟨?_, ?_, ?_, ?_⟩
  · rw [h'.asked, h.asked, List.map_append, List.append_assoc]
  · rw [h'.logged, h.logged, List.flatMap_append, List.append_assoc]
  · rw [h'.attempts, h.attempts, List.length_append, Nat.add_assoc]
  · rw [h'.accepted, h.accepted, List.countP_append, Nat.add_assoc]

/-- A question is written down behind those before it. -/
theorem transcript_of_judge {candidate current program : Program}
    {state next : σ × List (Question ε)} {answer : Except ε Bool}
    (h : oracle.recorded.judge candidate state current = (answer, next, program)) :
    next.2 = state.2 ++ [⟨candidate, current, answer⟩] := by
  cases h
  rfl

/-- An attempt at an instruction that may be removed is a visit. -/
theorem attempt_records (h : oracle.LeavesProgram) {instr : Instruction}
    (hinstr : run.program.instructions[n]? = some instr) (htry : instr.isCandidate = true)
    {answer : Except (ReductionError ε) Bool}
    (hattempt : attempt oracle.recorded [(n : Int)] run = (answer, after)) :
    ∃ verdict : Except ε Bool,
      let visit : Visit ε := ⟨n, run.program.without [(n : Int)], run.program, verdict⟩
      Records run after [visit] ∧ after.program = visit.question.outcome run.program ∧
        ((∃ e, verdict = .error e ∧ answer = .error (.oracle e)) ∨
          ∃ accepts, verdict = .ok accepts ∧ answer = .ok accepts) := by
  have hlive := Program.filter_isLive_candidate hinstr htry
  have hcandidate := Program.without_candidate hinstr htry
  have hindices := Program.hasIndices_singleton (List.getElem?_eq_some_iff.mp hinstr).1
  have hattempted := attempted h.recorded [(n : Int)] run
  rw [hattempt] at hattempted
  dsimp only at hattempted
  cases hattempted with
  | refused e hout => exact absurd hindices hout
  | idle hidle =>
    rw [hlive] at hidle
    cases hidle
  | failed e state hasks hanswer =>
    rw [← hcandidate] at hanswer
    refine ⟨.error e, ⟨?_, (List.append_nil _).symm, rfl, rfl⟩, rfl, .inl ⟨e, rfl, rfl⟩⟩
    exact transcript_of_judge hanswer
  | rejected state hasks hanswer =>
    rw [← hcandidate] at hanswer
    refine ⟨.ok false, ⟨?_, ?_, rfl, rfl⟩, rfl, .inr ⟨false, rfl, rfl⟩⟩
    · exact transcript_of_judge hanswer
    · rw [hlive]
      rfl
  | accepted state hasks hanswer =>
    rw [← hcandidate] at hanswer
    refine ⟨.ok true, ⟨?_, ?_, rfl, rfl⟩, hcandidate.symm, .inr ⟨true, rfl, rfl⟩⟩
    · exact transcript_of_judge hanswer
    · rw [hlive]
      rfl

/-- Whether a pass ends as its visits do: with an error if the oracle fails at the last of them, and
well if it answers at all. -/
def EndsAs (answer : Except (ReductionError ε) Unit) (visits : List (Visit ε)) : Prop :=
  (answer = .ok () ∧ ∀ visit ∈ visits, ∃ accepts, visit.question.answer = .ok accepts) ∨
    ∃ e front visit, answer = .error (.oracle e) ∧ visits = front ++ [visit] ∧
      visit.question.answer = .error e

theorem EndsAs.cons {answer : Except (ReductionError ε) Unit} {visits : List (Visit ε)}
    (h : EndsAs answer visits) {visit : Visit ε}
    (hvisit : ∃ accepts, visit.question.answer = .ok accepts) :
    EndsAs answer (visit :: visits) := by
  rcases h with ⟨rfl, hall⟩ | ⟨e, front, last, rfl, rfl, hlast⟩
  · exact .inl ⟨rfl, List.forall_mem_cons.mpr ⟨hvisit, hall⟩⟩
  · exact .inr ⟨e, visit :: front, last, rfl, rfl, hlast⟩

/-- **A pass over the instructions makes its visits**: the places are those of the instructions of
the program that may be removed, and only a failure of the oracle ends it before the last of
them. -/
theorem swept_of_removeInstructions (h : oracle.LeavesProgram) (hn : n ≤ run.program.size)
    {answer : Except (ReductionError ε) Unit}
    (hpass : removeInstructions oracle.recorded n run = (answer, after)) :
    ∃ visits, Swept run.program (run.program.candidates n) visits after.program ∧
      Records run after visits ∧
      EndsAs answer visits := by
  induction n generalizing run with
  | zero =>
    cases hpass
    exact ⟨[], .done _, .refl _, .inl ⟨rfl, by simp⟩⟩
  | succ n ih =>
    have hinstr : run.program.instructions[n]? = some _ := List.getElem?_eq_getElem hn
    rw [removeInstructions, hinstr] at hpass
    rw [Program.candidates_succ, hinstr, Option.any_some]
    dsimp only at hpass
    split at hpass
    · next htry =>
      rw [if_pos htry]
      rcases hattempt : attemptOne oracle.recorded n run with ⟨tried, mid⟩
      rw [hattempt] at hpass
      obtain ⟨verdict, hrecords, hprogram, ⟨e, rfl, rfl⟩ | ⟨accepts, rfl, rfl⟩⟩ :=
        attempt_records h hinstr htry hattempt
      · cases hpass
        refine ⟨_, ?_, hrecords, .inr ⟨e, [], _, rfl, rfl, rfl⟩⟩
        rw [hprogram]
        exact .failed e
      · have hle : n ≤ run.program.size := Nat.le_of_succ_le hn
        dsimp only at hpass
        cases accepts with
        | true =>
          have hmid : mid.program = run.program.without [(n : Int)] := hprogram
          obtain ⟨visits, hswept, hlater, hend⟩ := ih (by rwa [hmid, Program.size_without]) hpass
          rw [hmid, Program.candidates_without] at hswept
          exact ⟨_, .removed hswept, hrecords.append hlater, hend.cons ⟨true, rfl⟩⟩
        | false =>
          have hmid : mid.program = run.program := hprogram
          obtain ⟨visits, hswept, hlater, hend⟩ := ih (by rwa [hmid]) hpass
          rw [hmid] at hswept
          exact ⟨_, .kept hswept, hrecords.append hlater, hend.cons ⟨false, rfl⟩⟩
    · next htry =>
      rw [if_neg htry]
      exact ih (by omega) hpass

end Pass

/-! ## The reducer of instructions -/

/-- Which visits a pass over the instructions makes, what the oracle is asked in them, and what they
leave of the program. -/
structure InOrder (run : Run σ) (answer : Except (ReductionError ε) Unit)
    (after : Run (σ × List (Question ε))) (visits : List (Visit ε)) : Prop where
  /-- The oracle is asked once in each visit, and nothing else. -/
  asked : after.state.2 = visits.map Visit.question
  /-- Visits are logged with their places. -/
  logged : after.log = run.log ++ visits.flatMap Visit.entries
  attempts : after.attempts = run.attempts + visits.length
  accepted : after.accepted = run.accepted + visits.countP Visit.removes
  /-- No place is visited twice, and later places come first. -/
  descending : (visits.map Visit.place).Pairwise (· > ·)
  /-- Only instructions that may be removed are visited, as they are at the start. -/
  eligible : ∀ n ∈ visits.map Visit.place, ∃ instr, run.program.instructions[n]? = some instr ∧
    instr.operation.simple = true ∧ instr.isNop = false ∧ instr.isComment = false
  /-- All of them are, unless the oracle fails. -/
  complete : answer = .ok () → ∀ (n : Nat) (instr : Instruction),
    run.program.instructions[n]? = some instr → instr.operation.simple = true →
    instr.isNop = false → instr.isComment = false → n ∈ visits.map Visit.place
  /-- A failure of the oracle is the only way in which the pass fails, and then it ends there. -/
  ends : EndsAs answer visits
  /-- A visit asks about the program of the start without the instruction that is visited and those
  that have been removed before, and the program at that time is the one without the latter. -/
  question : ∀ earlier visit later, visits = earlier ++ visit :: later →
    visit.question.current = run.program.without (removals earlier) ∧
      visit.question.candidate
        = run.program.without (removals earlier ++ [(visit.place : Int)])
  /-- In the end the program is without what has been removed. -/
  program : after.program = run.program.without (removals visits)
  /-- Other instructions stay as they are. -/
  untouched : ∀ (n : Nat) (instr : Instruction), run.program.instructions[n]? = some instr →
    instr.operation.simple = false ∨ instr.isNop = true ∨ instr.isComment = true →
    after.program.instructions[n]? = some instr

/-- What is removed has been visited. -/
theorem mem_places_of_mem_removals {visits : List (Visit ε)} {n : Nat}
    (h : (n : Int) ∈ removals visits) : n ∈ visits.map Visit.place := by
  obtain ⟨visit, hvisit, heq⟩ := List.mem_map.mp h
  rw [← Int.ofNat.inj heq]
  exact List.mem_map_of_mem (List.mem_filter.mp hvisit).1

/-- **The reducer of instructions visits the instructions that it may remove, last first and each
once**, with any oracle that leaves the program alone; one that fails ends the visits. At each the
oracle is asked about the program of the start without the instruction and without those that it
has let go before, so what was edited meanwhile neither adds nor hides a visit. Writing down the
questions changes nothing. -/
theorem reduce_instructions_inOrder {oracle : Oracle σ ε} (h : oracle.LeavesProgram)
    (run : Run σ) : ∃ answer after visits,
      Reducer.instructions.reduce oracle.recorded (run.mapState fun state => (state, []))
        = (answer, after) ∧
      Reducer.instructions.reduce oracle run = (answer, after.mapState Prod.fst) ∧
      InOrder run answer after visits := by
  have hinStep : InStep (fun run run' => run = run'.mapState Prod.fst)
      (Reducer.instructions.reduce oracle) (Reducer.instructions.reduce oracle.recorded) :=
    reduce_inStep (alike_mapState Prod.fst)
      (attempt_inStep fun candidate state current => rfl) .instructions
  obtain ⟨hanswer, hafter⟩ := hinStep run (run.mapState fun state => (state, [])) rfl
  rcases hpass : Reducer.instructions.reduce oracle.recorded
    (run.mapState fun state => (state, [])) with ⟨answer, after⟩
  rw [hpass] at hanswer hafter
  obtain ⟨visits, hswept, hrecords, hends⟩ := swept_of_removeInstructions h (Nat.le_refl _) hpass
  have hplaces := hswept.places_prefix
  have heligible : ∀ n ∈ visits.map Visit.place, ∃ instr,
      run.program.instructions[n]? = some instr ∧ instr.isCandidate = true := fun n hn =>
    (Program.mem_candidates.mp (hplaces.subset hn)).2
  refine ⟨answer, after, visits, rfl, Prod.ext hanswer hafter, ?_⟩
  refine
    { asked := hrecords.asked, logged := hrecords.logged, attempts := hrecords.attempts,
      accepted := hrecords.accepted, ends := hends, program := hswept.program_eq,
      descending := (Program.pairwise_candidates _ _).sublist hplaces.sublist,
      eligible := fun n hn => ?_, complete := ?_, question := fun _ _ _ => hswept.question,
      untouched := ?_ }
  · obtain ⟨instr, hinstr, htry⟩ := heligible n hn
    exact ⟨instr, hinstr, Instruction.isCandidate_iff.mp htry⟩
  · intro hok n instr hinstr hsimple hnop hcomment
    have hanswers : ∀ visit ∈ visits, ∃ accepts, visit.question.answer = .ok accepts := by
      rcases hends with ⟨-, hall⟩ | ⟨e, front, visit, herror, -⟩
      · exact hall
      · rw [hok] at herror
        cases herror
    rw [hswept.places_eq hanswers]
    exact Program.mem_candidates.mpr ⟨(List.getElem?_eq_some_iff.mp hinstr).1, instr, hinstr,
      Instruction.isCandidate_iff.mpr ⟨hsimple, hnop, hcomment⟩⟩
  · intro n instr hinstr hkind
    have hnot : (n : Int) ∉ removals visits := by
      intro hmem
      obtain ⟨other, hother, htry⟩ := heligible n (mem_places_of_mem_removals hmem)
      rw [hinstr] at hother
      cases hother
      obtain ⟨hsimple, hnop, hcomment⟩ := Instruction.isCandidate_iff.mp htry
      simp [hsimple, hnop, hcomment] at hkind
    rw [hswept.program_eq, Program.instructions_without]
    change Option.map _ run.program.instructions[n]? = _
    rw [hinstr, Option.map_some, if_neg hnot]

/-- A program with a remark, a group, and a removal that has an argument. -/
def sampleVisited : Program :=
  ⟨[⟨.ofSimple "LoadInteger", [.int 1]⟩, ⟨.comment, []⟩, ⟨.ofBegin "BeginIf", []⟩,
    ⟨.ofSimple "LoadInteger", [.int 2]⟩, ⟨.nop, [.int 3]⟩, ⟨.ofEnd "EndIf", []⟩,
    ⟨.ofSimple "LoadString", []⟩]⟩

/-- An oracle that accepts every other candidate. -/
theorem reduce_instructions_everyOther :
    let oracle : Oracle Nat Empty := ⟨fun _ state current =>
      (.ok (state % 2 == 0), state + 1, current)⟩
    oracle.LeavesProgram ∧ ∃ after visits,
      Reducer.instructions.reduce oracle.recorded { program := sampleVisited, state := (0, []) }
        = (.ok (), after) ∧
      InOrder { program := sampleVisited, state := 0 } (.ok () : Except (ReductionError Empty) Unit)
        after visits ∧
      after.log = [.committed [6], .rejected [3], .committed [0]] ∧
      after.program = sampleVisited.without [6, 0] ∧
      after.state.2.map Question.candidate
        = [sampleVisited.without [6], sampleVisited.without [6, 3],
          sampleVisited.without [6, 0]] := by
  intro oracle
  have hleaves : oracle.LeavesProgram := fun _ _ _ => rfl
  obtain ⟨answer, after, visits, hrecorded, -, hvisits⟩ :=
    reduce_instructions_inOrder hleaves { program := sampleVisited, state := 0 }
  obtain ⟨rfl, rfl⟩ := Prod.ext_iff.mp hrecorded
  exact ⟨hleaves, _, visits, rfl, hvisits, rfl, rfl, rfl⟩

end FlatCode
