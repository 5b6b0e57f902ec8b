import FlatCode.Proofs.Reduction.Counting
import FlatCode.Proofs.Reduction.Guarding
import FlatCode.Proofs.Reduction.Keeping

/-!
# Rounds that keep operations

A round with the oracle that keeps operations removes what is doomed of each group, and then the
simple instructions that nobody wants (`condemned`). A second round finds nothing left to remove, so
the first one has the final program.

* `runReducers_keeping` — what one round removes
* `clear_condemned` — a second round removes nothing
* `minimize_condemned` — what a reduction removes, and in how many rounds
-/

namespace FlatCode

variable {σ ε : Type} {names : List Text} {required : Oracle.Required} {run : Run σ}

/-! ## The reducer of instructions -/

/-- The places, in front of a place, of instructions that the reducer tries and nobody wants. -/
def expendable (wants : Nat → Bool) (program : Program) (n : Nat) : List Int :=
  ((List.range n).filter fun idx =>
    program.instructions[idx]?.any Instruction.isCandidate && !wants idx).map
      fun idx : Nat => (idx : Int)

theorem mem_expendable {wants : Nat → Bool} {program : Program} {n m : Nat} :
    (m : Int) ∈ expendable wants program n ↔ m < n ∧ wants m = false ∧
      ∃ instr, program.instructions[m]? = some instr ∧ instr.isCandidate = true := by
  rw [expendable, natCast_mem_map, List.mem_filter, List.mem_range, Bool.and_eq_true,
    Option.any_eq_true, Bool.not_eq_true']
  exact and_congr_right fun _ => and_comm

theorem expendable_succ (wants : Nat → Bool) (program : Program) (n : Nat) :
    expendable wants program (n + 1) = expendable wants program n ++
      if program.instructions[n]?.any Instruction.isCandidate && !wants n then [(n : Int)]
      else [] := by
  rw [expendable, List.range_succ, List.filter_append, List.map_append, ← expendable,
    List.filter_singleton]
  congr 1
  cases program.instructions[n]?.any Instruction.isCandidate && !wants n with
  | true => rfl
  | false => rfl

/-- What is removed behind a place does not matter in front of it. -/
theorem expendable_clear (wants : Nat → Bool) {program : Program} {indices : List Int} {n : Nat}
    (h : ∀ m : Nat, (m : Int) ∈ indices → n ≤ m) :
    expendable wants (program.clear indices) n = expendable wants program n := by
  unfold expendable
  congr 1
  refine List.filter_congr fun m hm => ?_
  have hout : (m : Int) ∉ indices := fun hmem =>
    Nat.not_lt.mpr (h m hmem) (List.mem_range.mp hm)
  rw [Program.instructions_clear]
  cases program.instructions[m]? with
  | none => rfl
  | some instr => rw [Option.map_some, if_neg fun hgone => hout hgone.1]

/-- **The reducer of instructions removes what it tries and nobody wants.** -/
theorem removeInstructions_keeping (hkeeper : Keeper names required run.program) {n : Nat}
    (hn : n ≤ run.program.size) :
    ∃ after, removeInstructions (Oracle.keeping required : Oracle σ ε) n run = (.ok (), after) ∧
      after.program
        = run.program.clear (expendable (run.program.wants names) run.program n) := by
  induction n generalizing run with
  | zero => exact ⟨run, rfl, (Program.clear_nil _).symm⟩
  | succ idx ih =>
    have hinstr := List.getElem?_eq_getElem (Nat.lt_of_succ_le hn)
    generalize run.program.instructions[idx] = instr at hinstr
    rw [removeInstructions, hinstr]
    dsimp only
    by_cases hcandidate : instr.isCandidate = true
    · have hindices := Program.hasIndices_singleton hn
      obtain ⟨removed, now, hattempt, hprogram, -⟩ := attempt_keeping (ε := ε) hkeeper hindices
      have hspares := spares_agreed (run.program.wants names) [(idx : Int)]
      -- only this place is removed, and what is in front of it is tried next
      have hgone : ∀ m : Nat, (m : Int) ∈ agreed (run.program.wants names) [(idx : Int)] →
          idx ≤ m := by
        intro m hm
        rw [Int.ofNat.inj (List.mem_singleton.mp (mem_of_mem_agreed hm))]
      have hkeeper' := hkeeper.clear hspares
      rw [← hprogram] at hkeeper'
      have hsize : idx ≤ now.program.size := by
        rw [hprogram, Program.size_clear]
        omega
      obtain ⟨after, hrest, hafter⟩ := ih hkeeper' hsize
      rw [if_pos hcandidate, attemptOne, hattempt]
      refine ⟨after, hrest, ?_⟩
      rw [hafter, hprogram, wants_clear hspares, Program.clear_clear,
        expendable_clear (run.program.wants names) hgone, expendable_succ, hinstr, Option.any_some,
        hcandidate, Bool.true_and, ← agreed_singleton, Program.clear_append_comm]
    · obtain ⟨after, hrest, hafter⟩ := ih hkeeper (Nat.le_of_succ_le hn)
      rw [if_neg hcandidate]
      refine ⟨after, hrest, ?_⟩
      rw [hafter, expendable_succ, hinstr, Option.any_some, eq_false_of_ne_true hcandidate,
        Bool.false_and, if_neg Bool.false_ne_true, List.append_nil]

/-! ## A round -/

/-- What a round removes: what is doomed of each group, and what nobody wants of the rest. -/
def condemned (names : List Text) (program : Program) (lists : List (List Nat)) : List Int :=
  lists.flatMap (fun bs => doomed (program.wants names) (groupOf program bs)) ++
    expendable (program.wants names) program program.size

theorem spares_groups (wants : Nat → Bool) (program : Program) (lists : List (List Nat)) :
    spares wants (lists.flatMap fun bs => doomed wants (groupOf program bs)) = true := by
  rw [spares, List.all_flatMap, List.all_eq_true]
  exact fun bs _ => spares_doomed wants (groupOf program bs)

theorem spares_expendable (wants : Nat → Bool) (program : Program) (n : Nat) :
    spares wants (expendable wants program n) = true := by
  rw [spares, expendable, List.all_map, List.all_eq_true]
  intro idx hidx
  obtain ⟨-, hexpendable⟩ := List.mem_filter.mp hidx
  exact (Bool.and_eq_true_iff.mp hexpendable).2

theorem spares_condemned (names : List Text) (program : Program) (lists : List (List Nat)) :
    spares (program.wants names) (condemned names program lists) = true := by
  have hgroups := spares_groups (program.wants names) program lists
  have hrest := spares_expendable (program.wants names) program program.size
  rw [spares] at hgroups hrest
  rw [spares, condemned, List.all_append, hgroups, hrest]
  rfl

/-- Behind a guard the reducer of groups removes the same. -/
theorem reduce_groups_keeping (hsound : run.program.Sound) {lists : List (List Nat)}
    (hlists : run.program.boundaryLists = .ok lists)
    (hkeeper : Keeper names required run.program) :
    ∃ after, Reducer.groups.reduce ((Oracle.keeping required : Oracle σ ε).guarded true) run
        = (.ok (), after) ∧ after.program.Sound ∧
      after.program = run.program.clear
        (lists.flatMap fun bs => doomed (run.program.wants names) (groupOf run.program bs)) := by
  obtain ⟨hguarded, hsound'⟩ :=
    reduce_guarded (leavesProgram_keeping (σ := σ) (ε := ε) required) true .groups hsound
  obtain ⟨after, hafter, hprogram⟩ := removeGroups_keeping (ε := ε)
    (Ahead.start hsound.registered hlists) hkeeper run.program
  have hreduce : Reducer.groups.reduce (Oracle.keeping required : Oracle σ ε) run
      = (.ok (), after) := by
    rw [Reducer.reduce, groups_of_boundaryLists hlists]
    exact hafter
  rw [hreduce] at hguarded hsound'
  exact ⟨after, hguarded, hsound', hprogram⟩

/-- Behind a guard the reducer of instructions removes the same. -/
theorem reduce_instructions_keeping (hsound : run.program.Sound)
    (hkeeper : Keeper names required run.program) :
    ∃ after, Reducer.instructions.reduce ((Oracle.keeping required : Oracle σ ε).guarded true) run
        = (.ok (), after) ∧
      after.program = run.program.clear
        (expendable (run.program.wants names) run.program run.program.size) := by
  obtain ⟨hguarded, -⟩ :=
    reduce_guarded (leavesProgram_keeping (σ := σ) (ε := ε) required) true .instructions hsound
  obtain ⟨after, hafter, hprogram⟩ :=
    removeInstructions_keeping (ε := ε) hkeeper (Nat.le_refl run.program.size)
  exact ⟨after, hguarded.trans hafter, hprogram⟩

/-- **A round removes what is condemned.** -/
theorem runReducers_keeping (hsound : run.program.Sound) {lists : List (List Nat)}
    (hlists : run.program.boundaryLists = .ok lists)
    (hkeeper : Keeper names required run.program) (round : Nat) :
    ∃ after, runReducers ((Oracle.keeping required : Oracle σ ε).guarded true) round
        Reducer.standard run = (.ok (), after) ∧
      after.program = run.program.clear (condemned names run.program lists) := by
  -- the entries of the log leave the program as it is
  have hstarted : (run.note (.started round Reducer.groups.name)).program.Sound := hsound
  obtain ⟨now, hnow, hsound', hprogram⟩ := reduce_groups_keeping (ε := ε) hstarted hlists hkeeper
  have hspares := spares_groups (run.program.wants names) run.program lists
  have hprogram' : now.program = run.program.clear
    (lists.flatMap fun bs => doomed (run.program.wants names) (groupOf run.program bs)) := hprogram
  have hkeeper' := hkeeper.clear hspares
  rw [← hprogram'] at hkeeper'
  have hstarted' : (now.note (.started round Reducer.instructions.name)).program.Sound := hsound'
  obtain ⟨after, hafter, hrest⟩ := reduce_instructions_keeping (ε := ε) hstarted' hkeeper'
  have hrest' : after.program = now.program.clear
    (expendable (now.program.wants names) now.program now.program.size) := hrest
  rw [Reducer.standard, runReducers, hnow]
  dsimp only
  rw [runReducers, hafter]
  refine ⟨after, rfl, ?_⟩
  rw [hrest', hprogram', wants_clear hspares, Program.clear_clear, Program.size_clear, condemned]
  refine Program.clear_congr fun n instr hinstr hlive => ?_
  rw [List.mem_append, List.mem_append]
  by_cases hn : (n : Int) ∈
      lists.flatMap fun bs => doomed (run.program.wants names) (groupOf run.program bs)
  · simp only [hn, true_or]
  · -- what is left by the reducer of groups is as it was
    rw [mem_expendable, mem_expendable, Program.instructions_clear, hinstr, Option.map_some,
      if_neg fun hgone => hn hgone.1]

/-! ## A second round -/

section Condemned

variable {program : Program} {lists : List (List Nat)}

theorem wholeGroups_doomed (hlists : program.boundaryLists = .ok lists) (wants : Nat → Bool)
    {bs : List Nat} (hbs : bs ∈ lists) (other : Program) :
    WholeGroups lists (doomed wants (groupOf other bs)) := by
  unfold doomed agreed
  split
  · exact wholeGroups_range hlists hbs other
  · split
    · exact wholeGroups_boundaries hlists hbs other
    · intro _ _ n _ m _ hn
      cases hn

/-- With any instruction of a group its begin is doomed. -/
theorem Listed.head_mem_doomed {bs : List Nat} {head tail : Nat}
    (h : Listed program bs head tail) {wants : Nat → Bool} {other : Program} {idx : Int}
    (hidx : idx ∈ doomed wants (groupOf other bs)) :
    (head : Int) ∈ doomed wants (groupOf other bs) := by
  unfold doomed agreed at hidx ⊢
  split
  · have hle := (h.within head h.head_mem).2
    rw [h.mem_range]
    omega
  · rename_i hrange
    rw [if_neg hrange] at hidx
    split
    · exact natCast_mem_map.mpr h.head_mem
    · rename_i hboundaries
      rw [if_neg hboundaries] at hidx
      cases hidx

/-- Of the markers whole groups are condemned. -/
theorem wholeGroups_condemned (hreducible : program.Reducible)
    (hlists : program.boundaryLists = .ok lists) (names : List Text) :
    WholeGroups lists (condemned names program lists) := by
  intro bs hbs n hn m hm hmem
  rw [condemned, List.mem_append] at hmem ⊢
  rcases hmem with hgroups | hrest
  · obtain ⟨bs', hbs', hdoomed⟩ := List.mem_flatMap.mp hgroups
    have hwhole := wholeGroups_doomed hlists (program.wants names) hbs' program
    exact .inl (List.mem_flatMap.mpr ⟨bs', hbs', hwhole bs hbs n hn m hm hdoomed⟩)
  · -- what the reducer of instructions tries is no marker
    obtain ⟨-, -, instr, hinstr, hcandidate⟩ := mem_expendable.mp hrest
    obtain ⟨head, tail, hlisted⟩ := listed_of_mem hlists hbs
    obtain ⟨marker, hmarker, hmarks⟩ := hlisted.marks hn
    rw [Program.marker_of_instruction hinstr, hreducible.apart instr
      (List.mem_of_getElem? hinstr) (Instruction.isCandidate_iff.mp hcandidate).1] at hmarker
    cases hmarker
    cases hmarks

/-- **A second round removes nothing.** -/
theorem clear_condemned (hreducible : program.Reducible)
    (hlists : program.boundaryLists = .ok lists) (names : List Text) :
    ∃ left, (program.clear (condemned names program lists)).boundaryLists = .ok left ∧
      (program.clear (condemned names program lists)).clear
          (condemned names (program.clear (condemned names program lists)) left)
        = program.clear (condemned names program lists) := by
  have hwhole := wholeGroups_condemned hreducible hlists names
  refine ⟨_, boundaryLists_clear hreducible.registered hlists hwhole, ?_⟩
  have hnone := Program.clear_nil (program.clear (condemned names program lists))
  refine Eq.trans (Program.clear_congr fun n instr hinstr hlive => ?_) hnone
  obtain ⟨hbefore, hspared⟩ := Program.of_live_clear hinstr hlive
  refine ⟨fun hmem => ?_, fun hmem => absurd hmem List.not_mem_nil⟩
  rw [condemned, wants_clear (spares_condemned names program lists), List.mem_append] at hmem
  rcases hmem with hgroups | hrest
  · -- a group that is left has something wanted among its boundaries
    obtain ⟨bs, hbs, hdoomed⟩ := List.mem_flatMap.mp hgroups
    obtain ⟨hlisted, hstays⟩ := List.mem_filter.mp hbs
    obtain ⟨head, tail, hgroup⟩ := listed_of_mem hlists hlisted
    refine absurd ?_ ((stays_iff hgroup).mp hstays)
    exact List.mem_append_left _ (List.mem_flatMap.mpr
      ⟨bs, hlisted, hgroup.head_mem_doomed hdoomed⟩)
  · obtain ⟨hlt, hwants, tried, htried, hcandidate⟩ := mem_expendable.mp hrest
    rw [hinstr] at htried
    cases htried
    rw [Program.size_clear] at hlt
    exact absurd (List.mem_append_right _
      (mem_expendable.mpr ⟨hlt, hwants, instr, hbefore, hcandidate⟩)) hspared

end Condemned

/-! ## All rounds -/

/-- **A round is the last one exactly if it removes nothing.** -/
theorem rounds_keeping (hsound : run.program.Sound) {lists : List (List Nat)}
    (hlists : run.program.boundaryLists = .ok lists)
    (hkeeper : Keeper names required run.program) (further done : Nat) :
    ∃ after, after.program = run.program.clear (condemned names run.program lists) ∧
      (after.program = run.program →
        rounds ((Oracle.keeping required : Oracle σ ε).guarded true) Reducer.standard (further + 1)
          done run = (.ok (done + 1), after)) ∧
      (after.program ≠ run.program →
        rounds ((Oracle.keeping required : Oracle σ ε).guarded true) Reducer.standard (further + 1)
            done run
          = rounds ((Oracle.keeping required : Oracle σ ε).guarded true) Reducer.standard further
            (done + 1) after) := by
  have hleaves := (leavesProgram_keeping (σ := σ) (ε := ε) required).guarded true
  obtain ⟨now, hnow, hprogram⟩ := runReducers_keeping (ε := ε) hsound hlists hkeeper (done + 1)
  have hcounted := runReducers_counted hleaves run Reducer.standard (done + 1)
  rw [hnow] at hcounted
  have hle := hcounted.accepted_le
  have hchanged : now.accepted - run.accepted = 0 ↔ now.program = run.program := by
    rw [← hcounted.accepted_eq_iff]
    dsimp only at hle ⊢
    omega
  refine ⟨now.note (.finished (done + 1) (now.accepted - run.accepted) now.program.payload),
    hprogram, fun hsame => ?_, fun hother => ?_⟩
  · rw [rounds, hnow]
    dsimp only
    rw [if_pos (hchanged.mpr hsame)]
  · rw [rounds, hnow]
    dsimp only
    rw [if_neg (mt hchanged.mp hother)]

/-- **A reduction removes in its first round all that it removes**, and a second round, if there is
one, is the last. -/
theorem minimize_condemned (hsound : run.program.Sound) {lists : List (List Nat)}
    (hlists : run.program.boundaryLists = .ok lists)
    (hkeeper : Keeper names required run.program) {maxRounds : Int} (hmax : 1 ≤ maxRounds) :
    ∃ outcome after, minimize ((Oracle.keeping required : Oracle σ ε).guarded true)
        Reducer.standard maxRounds run = (.ok outcome, after) ∧
      after.program = run.program.clear (condemned names run.program lists) ∧
      outcome.rounds = if outcome.removed = 0 ∨ maxRounds = 1 then 1 else 2 := by
  have hleaves := (leavesProgram_keeping (σ := σ) (ε := ε) required).guarded true
  have hcounted := minimize_counted hleaves run Reducer.standard maxRounds
  obtain ⟨further, hfurther⟩ : ∃ further, maxRounds.toNat = further + 1 :=
    ⟨maxRounds.toNat - 1, by omega⟩
  obtain ⟨now, hnow, hlast, hnext⟩ := rounds_keeping (ε := ε) hsound hlists hkeeper further 0
  unfold minimize at hcounted ⊢
  rw [if_neg (by omega), hfurther] at hcounted ⊢
  by_cases hsame : now.program = run.program
  · rw [hlast hsame]
    refine ⟨_, now, rfl, hnow, ?_⟩
    dsimp only
    rw [hsame, Int.sub_self, if_pos (.inl rfl)]
  rw [hnext hsame] at hcounted ⊢
  cases further with
  | zero =>
    refine ⟨_, now, rfl, hnow, ?_⟩
    dsimp only
    rw [if_pos (.inr (by omega))]
  | succ further =>
    obtain ⟨left, hleft, hfixed⟩ := clear_condemned hsound.toReducible hlists names
    have hkeeper' := hkeeper.clear (spares_condemned names run.program lists)
    have hsound' : now.program.Sound := by
      rw [hnow]
      exact ⟨hsound.toReducible.clear _, exists_boundaryLists_iff.mp ⟨left, hleft⟩⟩
    rw [← hnow] at hleft hkeeper' hfixed
    obtain ⟨after, hafter, hlast', -⟩ := rounds_keeping (ε := ε) hsound' hleft hkeeper' further 1
    rw [hfixed] at hafter
    rw [hlast' hafter] at hcounted ⊢
    refine ⟨_, after, rfl, hafter.trans hnow, ?_⟩
    dsimp only at hcounted ⊢
    have hremoved : after.program.payload ≠ run.program.payload := by
      rw [ne_eq, hcounted.payload_eq_iff, hafter]
      exact hsame
    rw [if_neg (by omega)]

end FlatCode
