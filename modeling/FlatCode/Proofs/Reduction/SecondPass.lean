import FlatCode.Proofs.Reduction.InstructionPass

/-!
# A second pass over the instructions

A pass over the instructions goes through the program once, from the last instruction to the first,
and does not come back to an instruction that it has rejected. So a second pass may remove more: an
instruction that could not be removed before one in front of it can be removed behind it. It removes
nothing exactly if each removal that the first pass has rejected is rejected of what the first pass
has left, as is the case if the predicate is closed under restoring.

* `isWellFormed_clear_marker_iff` — whether a guard rejects a removal depends on the marker alone
* `secondPass_removes` — a second pass that removes more
* `secondPass_iff` — when a second pass changes nothing
-/

namespace FlatCode

variable {σ ε : Type}

/-! ## Removing one marker -/

/-- A balanced list stays balanced without a marker that neither begins nor ends a group, and
without no other marker. -/
theorem balanced_plain_iff {front back : List Marker} {m : Marker}
    (h : Balanced (front ++ m :: back)) :
    Balanced (front ++ .plain :: back) ↔ m ≠ .groupBegin ∧ m ≠ .groupEnd := by
  rw [Balanced, depthAfter_append] at h ⊢
  cases hfront : depthAfter 0 front with
  | none =>
    rw [hfront] at h
    cases h
  | some depth =>
    rw [hfront, Option.bind_some] at h
    rw [Option.bind_some, depthAfter_cons_of_next rfl]
    cases m with
    | plain =>
      rw [depthAfter_cons_of_next rfl] at h
      simpa using h
    | groupBegin =>
      rw [depthAfter_cons_of_next rfl] at h
      simp only [ne_eq, not_true_eq_false, false_and, iff_false]
      intro hback
      -- the group would be open behind the list
      rw [depthAfter_add 1 hback] at h
      cases h
    | divider =>
      by_cases hzero : depth = 0
      · subst hzero
        cases h
      · have hnext : Marker.next depth .divider = some depth := if_neg hzero
        rw [depthAfter_cons_of_next hnext] at h
        simpa using h
    | groupEnd =>
      by_cases hzero : depth = 0
      · subst hzero
        cases h
      · have hnext : Marker.next depth .groupEnd = some (depth - 1) := if_neg hzero
        rw [depthAfter_cons_of_next hnext] at h
        simp only [ne_eq, not_true_eq_false, and_false, iff_false]
        intro hback
        have hopen := depthAfter_add 1 h
        rw [Nat.sub_add_cancel (by omega), hback] at hopen
        cases hopen

section Marker

variable {p : Program} {n : Nat} {instr : Instruction}

theorem Program.markers_clear_one (hinstr : p.instructions[n]? = some instr)
    (hlive : instr.isNop = false) : (p.clear [(n : Int)]).markers = p.markers.set n .plain := by
  refine List.ext_getElem? fun k => ?_
  rw [markers, markers, List.getElem?_map, instructions_clear, List.getElem?_set, List.getElem?_map,
    List.length_map]
  by_cases heq : n = k
  · subst heq
    obtain ⟨hlt, -⟩ := List.getElem?_eq_some_iff.mp hinstr
    simp only [hinstr, hlive, hlt, List.mem_singleton, and_self, if_true, Option.map_some]
    rfl
  · have hne : ¬(k : Int) = n := fun h => heq (Int.ofNat.inj h).symm
    simp [heq, hne]

/-- **Whether removing one instruction leaves a program well formed depends on its marker alone**,
since the program is well formed with it. -/
theorem isWellFormed_clear_marker_iff (hwell : p.isWellFormed = true)
    (hinstr : p.instructions[n]? = some instr) (hlive : instr.isNop = false) :
    (p.clear [(n : Int)]).isWellFormed = true ↔
      instr.marker ≠ .groupBegin ∧ instr.marker ≠ .groupEnd := by
  have hmarker := Program.marker_of_instruction hinstr
  obtain ⟨hlt, -⟩ := List.getElem?_eq_some_iff.mp hmarker
  rw [Program.isWellFormed_iff_balanced] at hwell ⊢
  rw [Program.markers_clear_one hinstr hlive, List.set_eq_take_append_cons_drop, if_pos hlt]
  rw [eq_take_cons_drop hmarker] at hwell
  exact balanced_plain_iff hwell

end Marker

/-! ## Two passes -/

section SecondPass

variable {oracle : Oracle σ ε} {accepts : Program → Bool} {p q : Program} {trials : List Trial}

/-- Behind a pass the reducer is spent if what was rejected is still rejected. -/
theorem Passed.spent_iff (h : Passed p.size p trials q) :
    Reducer.instructions.Spent (fun c => (.ok (accepts c) : Except ε Bool)) q ↔
      ∀ trial ∈ trials, trial.accepted = false →
        accepts (q.clear [(trial.place : Int)]) = false := by
  constructor
  · intro hspent trial ht hrejected
    obtain ⟨now, instr, -, -, -, -, -, htry, hstays⟩ := h.tried (fun _ => True) trivial
      (fun _ _ _ => trivial) ht
    have hinstr := hstays hrejected
    rcases hspent trial.place instr hinstr htry with hidle | hanswer
    · rw [Program.filter_isLive_candidate hinstr htry] at hidle
      cases hidle
    · exact Except.ok.inj hanswer
  · intro hrejected m instr hinstr htry
    obtain ⟨hlt, -⟩ := List.getElem?_eq_some_iff.mp hinstr
    have hm : m < p.size := by
      rw [← h.thinned.size]
      exact hlt
    obtain ⟨trial, ht, rfl, hanswer⟩ := h.exists_trial hm hinstr htry
    exact .inr (congrArg Except.ok (hrejected trial ht hanswer))

/-- **What a predicate rejects in a pass it rejects behind it**, if it is closed under restoring. -/
theorem Passed.rejects_again {n : Nat} (h : Passed n p trials q)
    (hrestorable : Restorable accepts p) {trial : Trial} (ht : trial ∈ trials)
    (hrejects : accepts trial.candidate = false) :
    accepts (q.clear [(trial.place : Int)]) = false := by
  obtain ⟨now, -, -, hbefore, hbehind, hcandidate, -⟩ := h.tried (fun _ => True) trivial
    (fun _ _ _ => trivial) ht
  refine Bool.eq_false_iff.mpr fun hagain => ?_
  have haccepts := (hrestorable.thinned hbefore).accepts_of_thinned
    (thinned_clear now [(trial.place : Int)]) (hbehind.clear _) hagain
  rw [← hcandidate, hrejects] at haccepts
  cases haccepts

/-- **What a guard rejects in a pass it rejects behind it**, by the marker of the instruction. -/
theorem Passed.malformed_again {n : Nat} (h : Passed n p trials q) (hwell : p.isWellFormed = true)
    (hguarded : ∀ trial ∈ trials, trial.accepted = true → trial.candidate.isWellFormed = true)
    {trial : Trial} (ht : trial ∈ trials) (hrejected : trial.accepted = false)
    (hmalformed : trial.candidate.isWellFormed = false) :
    (q.clear [(trial.place : Int)]).isWellFormed = false := by
  have hq := h.keeps (fun now => now.isWellFormed = true) hwell hguarded
  obtain ⟨now, instr, hnow, -, -, hcandidate, hinstr, htry, hstays⟩ :=
    h.tried (fun now => now.isWellFormed = true) hwell hguarded ht
  have hlive := (Instruction.isCandidate_iff.mp htry).2.1
  refine Bool.eq_false_iff.mpr fun hagain => ?_
  rw [isWellFormed_clear_marker_iff hq (hstays hrejected) hlive,
    ← isWellFormed_clear_marker_iff hnow hinstr hlive, ← hcandidate, hmalformed] at hagain
  cases hagain

/-- What is rejected behind a guard stays rejected. -/
theorem Passed.rejected_again {required : Bool} {n : Nat} (h : Passed n p trials q)
    (hjudged : ∀ trial ∈ trials,
      ((!required || trial.candidate.isWellFormed) && accepts trial.candidate) = trial.accepted)
    (hwell : p.isWellFormed = true) (hrestorable : Restorable accepts p) {trial : Trial}
    (ht : trial ∈ trials) (hrejected : trial.accepted = false) :
    ((!required || (q.clear [(trial.place : Int)]).isWellFormed) &&
      accepts (q.clear [(trial.place : Int)])) = false := by
  have hanswer := hjudged trial ht
  rw [hrejected, Bool.and_eq_false_iff] at hanswer
  rw [Bool.and_eq_false_iff]
  rcases hanswer with hguard | hrejects
  · rw [Bool.or_eq_false_iff, Bool.not_eq_false'] at hguard ⊢
    obtain ⟨rfl, hmalformed⟩ := hguard
    have hguarded : ∀ other ∈ trials, other.accepted = true →
        other.candidate.isWellFormed = true := by
      intro other hother haccepted
      have hanswer := hjudged other hother
      rw [haccepted, Bool.and_eq_true] at hanswer
      exact hanswer.1
    exact .inl ⟨rfl, h.malformed_again hwell hguarded ht hrejected hmalformed⟩
  · exact .inr (h.rejects_again hrestorable ht hrejects)

theorem guard_eq_false_iff {required wellFormed accepted : Bool} :
    ((!required || wellFormed) && accepted) = false ↔
      ((required = true → wellFormed = true) → accepted = false) := by
  cases required <;> cases wellFormed <;> simp

/-- The rejections of a pass, as they are logged. -/
theorem Passed.rejections_iff {required : Bool} {n : Nat} (h : Passed n p trials q) :
    (∀ trial ∈ trials, trial.accepted = false →
      ((!required || (q.clear [(trial.place : Int)]).isWellFormed) &&
        accepts (q.clear [(trial.place : Int)])) = false) ↔
      ∀ indices, .rejected indices ∈ trials.map Trial.entry →
        (required = true → (q.without indices).isWellFormed = true) →
        accepts (q.without indices) = false := by
  have hwithout : ∀ trial ∈ trials, trial.accepted = false →
      q.without [(trial.place : Int)] = q.clear [(trial.place : Int)] := by
    intro trial ht hrejected
    obtain ⟨now, instr, -, -, -, -, -, htry, hstays⟩ := h.tried (fun _ => True) trivial
      (fun _ _ _ => trivial) ht
    exact Program.without_candidate (hstays hrejected) htry
  constructor
  · intro hall indices hmem
    obtain ⟨trial, ht, hentry⟩ := List.mem_map.mp hmem
    obtain ⟨hrejected, rfl⟩ := Trial.entry_eq_rejected_iff.mp hentry
    rw [hwithout trial ht hrejected]
    exact guard_eq_false_iff.mp (hall trial ht hrejected)
  · intro hall trial ht hrejected
    have hmem : .rejected [(trial.place : Int)] ∈ trials.map Trial.entry :=
      List.mem_map.mpr ⟨trial, ht, Trial.entry_eq_rejected_iff.mpr ⟨hrejected, rfl⟩⟩
    rw [guard_eq_false_iff, ← hwithout trial ht hrejected]
    exact hall _ hmem

/-- A first pass that accepts one of two removals, and a second pass that accepts the other: the
instruction behind can only be removed without the one in front. -/
theorem secondPass_removes :
    let program : Program := ⟨[⟨.ofSimple "LoadInteger", []⟩, ⟨.ofSimple "CallFunction", []⟩]⟩
    let accepts : Program → Bool := fun candidate =>
      !(candidate.instructions[1]?.any Instruction.isNop) ||
        candidate.instructions[0]?.any Instruction.isNop
    let oracle : Oracle Unit String := Oracle.ofPredicate accepts
    program.isWellFormed = true ∧ ∃ after last,
      Reducer.instructions.reduce (oracle.guarded true) { program, state := () }
        = (.ok (), after) ∧
      after.program.names = ["Nop", "CallFunction"] ∧ after.accepted = 1 ∧
      Reducer.instructions.reduce (oracle.guarded true) after = (.ok (), last) ∧
      last.program.names = ["Nop", "Nop"] ∧ last.accepted = 2 := by
  intro program accepts oracle
  exact ⟨by decide, _, _, rfl, rfl, rfl, rfl, rfl, rfl⟩

/-- **When a second pass changes nothing.** An oracle that goes by the candidate lets a pass over
the instructions go through. A second pass of the same oracle, of the program that the first one has
left, accepts nothing, and leaves this program, exactly if what the first one has rejected is still
rejected of this program: by the guard, or else by the predicate. So it is for a well-formed program
if the predicate is closed under restoring. -/
theorem secondPass_iff (h : oracle.GoesBy fun candidate => .ok (accepts candidate))
    (required : Bool) (run : Run σ) :
    ∃ entries after, Reducer.instructions.reduce (oracle.guarded required) run = (.ok (), after) ∧
      after.log = run.log ++ entries ∧
      ∀ again : Run σ, again.program = after.program → ∃ last,
        Reducer.instructions.reduce (oracle.guarded required) again = (.ok (), last) ∧
        ((last.accepted = again.accepted ∧ last.program = after.program) ↔
          ∀ indices, .rejected indices ∈ entries →
            (required = true → (after.program.without indices).isWellFormed = true) →
            accepts (after.program.without indices) = false) ∧
        (run.program.isWellFormed = true → Restorable accepts run.program →
          last.accepted = again.accepted ∧ last.program = after.program) := by
  have hguarded := h.guarded required
  obtain ⟨trials, after, hpass, hlog, hpassed, hjudged⟩ := exists_passed hguarded run
  refine ⟨trials.map Trial.entry, after, hpass, hlog, fun again hagain => ?_⟩
  obtain ⟨-, last, hlast, -⟩ := exists_passed hguarded again
  have hcounts := reduce_counts hguarded.leavesProgram .instructions
  -- a pass that accepts nothing leaves the program, so it is a matter of this program
  have hquiet : (last.accepted = again.accepted ∧ last.program = after.program) ↔
      ∀ trial ∈ trials, trial.accepted = false →
        ((!required || (after.program.clear [(trial.place : Int)]).isWellFormed) &&
          accepts (after.program.clear [(trial.place : Int)])) = false := by
    have hspent : Quiet (Reducer.instructions.reduce (oracle.guarded required)) again ↔ _ :=
      reduce_quiet_iff hguarded .instructions
    rw [hagain] at hspent
    refine Iff.trans ?_ (hspent.trans hpassed.spent_iff)
    constructor
    · rintro ⟨haccepted, -⟩
      exact ⟨(), last, hlast, haccepted⟩
    · rintro ⟨_, _, hquiet, haccepted⟩
      cases hlast.symm.trans hquiet
      exact ⟨haccepted, (hcounts.program_eq hlast haccepted).trans hagain⟩
  refine ⟨last, hlast, hquiet.trans hpassed.rejections_iff, fun hwell hrestorable => ?_⟩
  rw [hquiet]
  intro trial ht hrejected
  exact hpassed.rejected_again hjudged hwell hrestorable ht hrejected

end SecondPass

/-- A second pass that changes nothing: the call is rejected, and is still rejected when the
constant in front of it is gone. -/
theorem secondPass_kept :
    let program : Program := ⟨[⟨.ofSimple "LoadInteger", [.int 1]⟩, ⟨.ofBegin "BeginIf", []⟩,
      ⟨.ofSimple "CallFunction", []⟩, ⟨.ofEnd "EndIf", []⟩]⟩
    let accepts := Oracle.keepsAll [("CallFunction", 1)]
    let oracle : Oracle Unit String := Oracle.ofPredicate accepts
    (oracle.GoesBy fun candidate => .ok (accepts candidate)) ∧ ∃ after last,
      Reducer.instructions.reduce (oracle.guarded true) { program, state := () }
        = (.ok (), after) ∧
      after.program.names = ["Nop", "BeginIf", "CallFunction", "EndIf"] ∧
      Reducer.instructions.reduce (oracle.guarded true) after = (.ok (), last) ∧
      last.accepted = 1 ∧ last.program = after.program := by
  intro program accepts oracle
  have horacle := Oracle.goesBy_ofPredicate (σ := Unit) (ε := String) accepts
  let run : Run Unit := { program, state := () }
  obtain ⟨after, hpass, hnames, haccepted, hlog⟩ : ∃ after,
      Reducer.instructions.reduce (oracle.guarded true) run = (.ok (), after) ∧
      after.program.names = ["Nop", "BeginIf", "CallFunction", "EndIf"] ∧ after.accepted = 1 ∧
      after.log = [.rejected [2], .committed [0]] :=
    ⟨_, rfl, rfl, rfl, rfl⟩
  obtain ⟨entries, after', hpass', hentries, hagain⟩ := secondPass_iff horacle true run
  cases hpass.symm.trans hpass'
  have hlogged : [.rejected [2], .committed [0]] = entries := hlog.symm.trans hentries
  obtain ⟨last, hlast, hiff, -⟩ := hagain after rfl
  have hsame : last.accepted = after.accepted ∧ last.program = after.program := by
    refine hiff.mpr fun indices hmem _ => ?_
    rw [← hlogged] at hmem
    obtain rfl : indices = [2] := by simpa using hmem
    cases hpass
    rfl
  exact ⟨horacle, after, last, hpass, hnames, hlast, hsame.1.trans haccepted, hsame.2⟩

end FlatCode
