import FlatCode.Proofs.Reduction.Guarding
import FlatCode.Proofs.Reduction.Rounds
import FlatCode.Proofs.Reduction.SecondPass

/-!
# One round suffices

Let the predicate be closed under restoring, and the program well formed, with no marker among its
simple instructions. Then each group that a pass over the groups leaves has been refused in its
visit (`Settled`), and stays refused; the pass over the instructions behind it leaves the markers,
so it leaves these groups, and what it leaves of the instructions it has rejected. So the round
leaves nothing that could still be removed, whatever was tried in which order.

* `removeGroups_settles` — each group that is left is refused
* `round_settles` — behind one round both reducers are spent
* `minimize_once` — a reduction with such a predicate, for any bound on the rounds
-/

namespace FlatCode

variable {σ ε : Type}

/-! ## Groups that are refused -/

/-- Whether some groups are the last ones that a program lists, and those in front of them are
refused. -/
structure Settled (ε : Type) (accepts : Program → Bool) (program : Program)
    (rest : List (List Nat)) : Prop where
  registered : program.Registered
  restorable : Restorable accepts program
  listed : ∃ kept, program.boundaryLists = .ok (kept ++ rest) ∧ ∀ bs ∈ kept,
    program.RefusesGroup (fun c => (.ok (accepts c) : Except ε Bool)) (groupOf program bs)

section Settled

variable {accepts : Program → Bool} {program : Program} {bs : List Nat} {rest : List (List Nat)}

theorem Settled.ahead (h : Settled ε accepts program rest) : Ahead program rest := by
  obtain ⟨kept, hlists, -⟩ := h.listed
  exact ⟨h.registered, kept, hlists⟩

/-- A group that is refused is left. -/
theorem Settled.skip (h : Settled ε accepts program (bs :: rest))
    (hrefused : program.RefusesGroup (fun c => (.ok (accepts c) : Except ε Bool))
      (groupOf program bs)) : Settled ε accepts program rest := by
  obtain ⟨kept, hlists, hkept⟩ := h.listed
  refine ⟨h.registered, h.restorable, kept ++ [bs], ?_, ?_⟩
  · rw [hlists, List.append_assoc, List.singleton_append]
  · intro bs' hbs'
    rcases List.mem_append.mp hbs' with hbefore | hlast
    · exact hkept bs' hbefore
    · rw [List.mem_singleton.mp hlast]
      exact hrefused

/-- **A group that is removed leaves refused groups**, since what was refused stays refused. -/
theorem Settled.clear (h : Settled ε accepts program (bs :: rest)) {head tail : Nat}
    (hlisted : Listed program bs head tail) {indices : List Int}
    (hwhole : ∀ lists, program.boundaryLists = .ok lists → bs ∈ lists → WholeGroups lists indices)
    (hbefore : ∀ n : Nat, (n : Int) ∈ indices → n ≤ tail) (hhead : (head : Int) ∈ indices) :
    Settled ε accepts (program.clear indices) rest := by
  obtain ⟨kept, hlists, hkept⟩ := h.listed
  have hthinned := thinned_clear program indices
  refine ⟨h.registered.clear indices, h.restorable.thinned hthinned, _,
    boundaryLists_clear_upTo h.registered hlists hlisted (hwhole _ hlists (by simp)) hbefore, ?_⟩
  intro bs' hbs'
  obtain ⟨hmem, hstays⟩ := List.mem_filter.mp hbs'
  rcases List.mem_append.mp hmem with hfront | hlast
  · exact h.restorable.refusesGroup hthinned (hkept bs' hfront)
  · -- the group itself does not stay
    rw [List.mem_singleton.mp hlast, stays_iff hlisted] at hstays
    exact absurd hhead hstays

end Settled

/-! ## The pass over the groups -/

section Groups

variable {oracle : Oracle σ ε} {accepts : Program → Bool} {run : Run σ} {bs : List Nat}
  {lists rest : List (List Nat)}

theorem tryGroup_answers (h : oracle.GoesBy fun candidate => .ok (accepts candidate))
    {group : BlockGroup} (hrange : run.program.HasIndices group.range)
    (hboundaries : run.program.HasIndices group.boundaries) :
    ∃ after, tryGroup oracle group run = (.ok (), after) := by
  obtain ⟨removed, whole, hwhole⟩ := attempt_answers h hrange
  cases removed with
  | true => exact ⟨whole, by simp [tryGroup, hwhole]⟩
  | false =>
    have hprogram := program_of_attempt h.leavesProgram hwhole
    dsimp only at hprogram
    rw [← hprogram] at hboundaries
    obtain ⟨removed, after, hafter⟩ := attempt_answers h hboundaries
    exact ⟨after, by simp [tryGroup, hwhole, hafter]⟩

/-- **A visit refuses the group or removes it.** -/
theorem tryGroup_settles (h : oracle.GoesBy fun candidate => .ok (accepts candidate))
    (hsettled : Settled ε accepts run.program (bs :: rest)) (other : Program) :
    ∃ after, tryGroup oracle (groupOf other bs) run = (.ok (), after) ∧
      Settled ε accepts after.program rest := by
  obtain ⟨head, tail, hlisted⟩ := hsettled.ahead.exists_listed
  have hrange := hlisted.hasIndices_range other
  have hboundaries := hlisted.hasIndices_boundaries other
  obtain ⟨after, hvisit⟩ := tryGroup_answers h hrange hboundaries
  have hprogram := program_of_tryGroup h.leavesProgram (groupOf other bs) run
  have hcounted := (tryGroup_counts h.leavesProgram (groupOf other bs)).counted run
  rw [hvisit] at hprogram hcounted
  refine ⟨after, hvisit, ?_⟩
  have hle := (hlisted.within head hlisted.head_mem).2
  rcases hprogram with hsame | hcleared | hcleared
  · -- nothing was accepted, so the group is refused
    have hquiet : Quiet (tryGroup oracle (groupOf other bs)) run :=
      ⟨(), after, hvisit, hcounted.accepted_eq_iff.mpr hsame⟩
    rw [tryGroup_quiet_iff h hrange hboundaries] at hquiet
    rw [hsame]
    exact hsettled.skip hquiet
  · rw [hcleared]
    refine hsettled.clear hlisted (fun _ hlists hbs => wholeGroups_range hlists hbs other)
      (fun n hn => ?_) ?_
    · rw [hlisted.mem_range] at hn
      omega
    · rw [hlisted.mem_range]
      omega
  · rw [hcleared]
    exact hsettled.clear hlisted (fun _ hlists hbs => wholeGroups_boundaries hlists hbs other)
      (fun n hn => (hlisted.within n (natCast_mem_map.mp hn)).2)
      (List.mem_map_of_mem hlisted.head_mem)

/-- **The groups that a pass leaves are refused.** -/
theorem removeGroups_settles (h : oracle.GoesBy fun candidate => .ok (accepts candidate))
    (hsettled : Settled ε accepts run.program lists) (other : Program) :
    ∃ after, removeGroups oracle (lists.map (groupOf other)) run = (.ok (), after) ∧
      Settled ε accepts after.program [] := by
  induction lists generalizing run with
  | nil => exact ⟨run, rfl, hsettled⟩
  | cons bs rest ih =>
    obtain ⟨now, hvisit, hnow⟩ := tryGroup_settles h hsettled other
    rw [List.map_cons, hsettled.ahead.removeGroups_eq oracle other, hvisit]
    exact ih hnow

end Groups

/-! ## One round -/

section Round

variable {oracle : Oracle σ ε} {accepts : Program → Bool} {run : Run σ} {p q : Program}
  {n : Nat} {trials : List Trial}

/-- A pass over instructions that are no markers leaves the markers. -/
theorem Passed.markers (h : Passed n p trials q) (hreducible : p.Reducible) :
    q.markers = p.markers := by
  induction h with
  | done p => rfl
  | skipped hinstr hskip hrest ih => exact ih hreducible
  | rejected hinstr htry hrest ih => exact ih hreducible
  | accepted hinstr htry hrest ih =>
    rw [ih (hreducible.clear _)]
    exact hreducible.markers_clear_candidate hinstr htry

theorem boundaryLists_of_markers_eq {lists : List (List Nat)} (h : q.markers = p.markers)
    (hlists : p.boundaryLists = .ok lists) : q.boundaryLists = .ok lists := by
  obtain ⟨t, ht, rfl⟩ := exists_items_of_boundaryLists hlists
  exact boundaryLists_of_markers (ht.trans h.symm)

/-- Behind a pass over the instructions the groups are still refused. -/
theorem Settled.spent (h : Settled ε accepts p []) (hpassed : Passed n p trials q)
    (hreducible : p.Reducible) :
    Reducer.groups.Spent (fun c => (.ok (accepts c) : Except ε Bool)) q := by
  obtain ⟨kept, hlists, hkept⟩ := h.listed
  rw [List.append_nil] at hlists
  refine ⟨_, groups_of_boundaryLists (boundaryLists_of_markers_eq (hpassed.markers hreducible)
    hlists), fun group hgroup => ?_⟩
  obtain ⟨bs, hbs, rfl⟩ := List.mem_map.mp hgroup
  exact h.restorable.refusesGroup hpassed.thinned (hkept bs hbs)

/-- **Behind one round both reducers are spent.** -/
theorem round_settles (h : oracle.GoesBy fun candidate => .ok (accepts candidate))
    (hsound : run.program.Sound) (hrestorable : Restorable accepts run.program) (round : Nat) :
    ∃ after, runReducers oracle round Reducer.standard run = (.ok (), after) ∧
      ∀ reducer : Reducer, reducer.Spent (fun c => (.ok (accepts c) : Except ε Bool))
        after.program := by
  obtain ⟨lists, hlists⟩ := exists_boundaryLists_iff.mpr hsound.isWellFormed
  let first : Run σ := run.note (.started round Reducer.groups.name)
  have hstart : Settled ε accepts first.program lists :=
    ⟨hsound.registered, hrestorable, [], hlists, fun _ hbs => by cases hbs⟩
  obtain ⟨now, hgroups, hnow⟩ := removeGroups_settles h hstart run.program
  have hpass : Reducer.groups.reduce oracle first = (.ok (), now) := by
    have hlisted : first.program.groups = .ok (lists.map (groupOf run.program)) :=
      groups_of_boundaryLists hlists
    rw [Reducer.reduce, hlisted]
    exact hgroups
  have hsound' : now.program.Sound := by
    have hfirst : first.program.Sound := hsound
    have hguarded := reduce_guarded h.leavesProgram true .groups hfirst
    rw [hpass] at hguarded
    exact hguarded.2
  let second : Run σ := now.note (.started round Reducer.instructions.name)
  obtain ⟨trials, after, hinstructions, -, hpassed, hjudged⟩ := exists_passed h second
  refine ⟨after, ?_, fun reducer => ?_⟩
  · rw [Reducer.standard, runReducers, hpass]
    dsimp only
    rw [runReducers, hinstructions]
    rfl
  · cases reducer with
    | groups => exact hnow.spent hpassed hsound'.toReducible
    | instructions =>
      refine hpassed.spent_iff.mpr fun trial ht hrejected => ?_
      exact hpassed.rejects_again hnow.restorable ht ((hjudged trial ht).trans hrejected)

end Round

/-! ## Whole reductions -/

section Whole

variable {oracle : Oracle σ ε} {accepts : Program → Bool} {run after : Run σ}

/-- **A reduction runs one round, and another one to see that nothing is left.** -/
theorem rounds_once (h : oracle.GoesBy fun candidate => .ok (accepts candidate))
    {reducers : List Reducer} (hround : runReducers oracle 1 reducers run = (.ok (), after))
    (hspent : ∀ reducer ∈ reducers,
      reducer.Spent (fun c => (.ok (accepts c) : Except ε Bool)) after.program) (further : Nat) :
    ∃ last, rounds oracle reducers (further + 1) 0 run
        = (.ok (if after.accepted - run.accepted = 0 ∨ further = 0 then 1 else 2), last) ∧
      last.program = after.program ∧ last.accepted = after.accepted := by
  rw [rounds, hround]
  dsimp only
  by_cases hchanged : after.accepted - run.accepted = 0
  · rw [if_pos hchanged, if_pos (.inl hchanged)]
    exact ⟨_, rfl, rfl, rfl⟩
  · rw [if_neg hchanged]
    cases further with
    | zero =>
      rw [if_pos (.inr rfl)]
      exact ⟨_, rfl, rfl, rfl⟩
    | succ further =>
      rw [if_neg (by omega)]
      exact rounds_of_spent h (show ∀ reducer ∈ reducers, reducer.Spent _ (after.note _).program
        from hspent) further 1

/-- A group whose boundaries are refused alone is refused with anything else. -/
theorem Restorable.rejects_group {p : Program} (h : Restorable accepts p) (hp : p.Registered)
    {gs : List BlockGroup} (hgs : p.groups = .ok gs) {group : BlockGroup} (hgroup : group ∈ gs)
    (hrefuses : p.Refuses (fun c => (.ok (accepts c) : Except ε Bool)) group.boundaries) :
    group.boundaries ⊆ group.range ∧
      ∀ indices, group.boundaries ⊆ indices → accepts (p.without indices) = false := by
  obtain ⟨lists, hlists⟩ :=
    exists_boundaryLists_iff.mpr (Program.isWellFormed_iff_groups.mpr ⟨gs, hgs⟩)
  rw [groups_of_boundaryLists hlists] at hgs
  cases hgs
  obtain ⟨bs, hbs, rfl⟩ := List.mem_map.mp hgroup
  obtain ⟨head, tail, hlisted⟩ := listed_of_mem hlists hbs
  constructor
  · intro idx hidx
    obtain ⟨n, hn, rfl⟩ := List.mem_map.mp hidx
    have hwithin := hlisted.within n hn
    rw [hlisted.mem_range]
    omega
  · intro indices hsubset
    refine Bool.eq_false_iff.mpr fun haccepts => ?_
    rcases hrefuses with hidle | hrejected
    · -- the first boundary does something
      have hhead := hlisted.isLive_of_mem hp hlisted.head_mem
      have hmem : (head : Int) ∈ (groupOf p bs).boundaries := List.mem_map_of_mem hlisted.head_mem
      exact absurd hhead (List.filter_eq_nil_iff.mp hidle _ hmem)
    · have hlive : accepts (p.clear (groupOf p bs).boundaries) = true :=
        h indices _ (List.Subset.trans (List.filter_subset_self _) hsubset) haccepts
      have hrejected : accepts (p.clear (groupOf p bs).boundaries) = false :=
        Except.ok.inj hrejected
      rw [hlive] at hrejected
      cases hrejected

/-- **One round suffices for a predicate that is closed under restoring**, in a well-formed program
with no marker among its simple instructions. What the reduction leaves, and how much it accepts, is
the same for any bound on the rounds, so nothing is accepted behind the first round; a second round
is run if something was accepted, to see that nothing is left. Of what is left nothing can be
removed without the predicate rejecting it: no simple instruction but a remark, and no group, as a
whole, by its boundaries, or by any instructions with its boundaries among them. -/
theorem minimize_once (h : oracle.GoesBy fun candidate => .ok (accepts candidate))
    (hwell : run.program.isWellFormed = true) (hregistered : run.program.Registered)
    (hapart : ∀ instr ∈ run.program.instructions, ¬(instr.operation.simple = true ∧
      (instr.operation.blockBegin = true ∨ instr.operation.blockEnd = true)))
    (hrestorable : Restorable accepts run.program) (required : Bool) :
    ∃ (final : Program) (count : Nat),
      (∀ maxRounds : Int, 1 ≤ maxRounds → ∃ outcome after,
        minimize (oracle.guarded required) Reducer.standard maxRounds run = (.ok outcome, after) ∧
        after.program = final ∧ outcome.accepted = count ∧
        outcome.rounds = if count = 0 ∨ maxRounds = 1 then 1 else 2) ∧
      (∀ (n : Nat) (instr : Instruction), final.instructions[n]? = some instr →
        instr.operation.simple = true → instr.isNop = false → instr.isComment = false →
        accepts (final.without [(n : Int)]) = false) ∧
      ∃ gs, final.groups = .ok gs ∧ ∀ group ∈ gs, group.boundaries ⊆ group.range ∧
        ∀ indices, group.boundaries ⊆ indices → accepts (final.without indices) = false := by
  have hsound : run.program.Sound := ⟨Program.reducible_of_apart hregistered hapart, hwell⟩
  obtain ⟨after, hround, hspent⟩ := round_settles h hsound hrestorable 1
  have hcounted := (runReducers_counts h.leavesProgram 1 Reducer.standard).counted run
  rw [hround] at hcounted
  have hfinal := hrestorable.thinned hcounted.thinned
  refine ⟨after.program, after.accepted - run.accepted, ?_, ?_, ?_⟩
  · intro maxRounds hmax
    obtain ⟨further, hfurther⟩ : ∃ further, maxRounds.toNat = further + 1 :=
      ⟨maxRounds.toNat - 1, by omega⟩
    obtain ⟨last, hrounds, hlast, haccepted⟩ :=
      rounds_once h hround (fun reducer _ => hspent reducer) further
    rw [minimize_guarded h.leavesProgram required _ _ hsound, minimize, if_neg (by omega), hfurther,
      hrounds]
    refine ⟨_, last, rfl, hlast, ?_, ?_⟩
    · show last.accepted - run.accepted = after.accepted - run.accepted
      rw [haccepted]
    · have hmore : further = 0 ↔ maxRounds = 1 := by omega
      simp only [hmore]
  · intro n instr hinstr hsimple hnop hcomment
    have htry := Instruction.isCandidate_iff.mpr ⟨hsimple, hnop, hcomment⟩
    rcases hspent .instructions n instr hinstr htry with hidle | hrejected
    · rw [Program.filter_isLive_candidate hinstr htry] at hidle
      cases hidle
    · rw [Program.without_candidate hinstr htry]
      exact Except.ok.inj hrejected
  · obtain ⟨gs, hgs, hrefused⟩ := hspent .groups
    have hregistered' := hcounted.thinned.registered hregistered
    refine ⟨gs, hgs, fun group hgroup => ?_⟩
    exact hfinal.rejects_group hregistered' hgs hgroup (hrefused group hgroup).2

end Whole

/-- A branch around a call that is needed: its boundaries go, and the constant beside the call. -/
theorem minimize_once_needed :
    let program : Program := ⟨[⟨.ofBegin "BeginIf", []⟩, ⟨.ofSimple "LoadInteger", [.int 1]⟩,
      ⟨.ofSimple "CallFunction", []⟩, ⟨.ofEnd "EndIf", []⟩]⟩
    let accepts : Program → Bool := fun candidate =>
      candidate.instructions[2]?.any fun instr => !instr.isNop
    let oracle : Oracle Unit String := Oracle.ofPredicate accepts
    (oracle.GoesBy fun candidate => .ok (accepts candidate)) ∧ program.isWellFormed = true ∧
      program.Registered ∧ Restorable accepts program ∧ ∃ outcome after,
        minimize (oracle.guarded true) Reducer.standard 10 { program, state := () }
          = (.ok outcome, after) ∧
        outcome.rounds = 2 ∧ outcome.accepted = 2 ∧
        after.program.names = ["Nop", "Nop", "CallFunction", "Nop"] ∧
        accepts (after.program.without [2]) = false := by
  intro program accepts oracle
  have horacle : oracle.GoesBy fun candidate => .ok (accepts candidate) :=
    Oracle.goesBy_ofPredicate accepts
  let run : Run Unit := { program, state := () }
  have hwell : run.program.isWellFormed = true := by decide
  have hregistered : run.program.Registered := by
    intro instr hinstr
    have hbuiltin : instr.operation ∈ Operation.builtins := by
      revert instr
      decide
    exact Instruction.registered_of_builtin hbuiltin instr.args
  have hrestorable : Restorable accepts run.program := by
    intro indices fewer hsubset haccepts
    have hkept : (2 : Int) ∉ indices := by
      intro hmem
      simp [accepts, run, program, Program.without, hmem] at haccepts
      cases haccepts
    have hfewer : (2 : Int) ∉ fewer := fun hmem => hkept (hsubset hmem)
    simp [accepts, run, program, Program.without, hfewer]
    rfl
  obtain ⟨final, count, hruns, hsimple, -⟩ :=
    minimize_once horacle hwell hregistered (by decide) hrestorable true
  obtain ⟨outcome, after, hminimize, hfinal, hcount, hrounds⟩ := hruns 10 (by decide)
  obtain ⟨outcome', after', hminimize', haccepted, hnames, hlive⟩ : ∃ outcome after,
      minimize (oracle.guarded true) Reducer.standard 10 run = (.ok outcome, after) ∧
      outcome.accepted = 2 ∧ after.program.names = ["Nop", "Nop", "CallFunction", "Nop"] ∧
      after.program.instructions[2]? = some ⟨.ofSimple "CallFunction", []⟩ :=
    ⟨_, _, rfl, rfl, rfl, rfl⟩
  cases hminimize.symm.trans hminimize'
  rw [haccepted] at hcount
  rw [← hcount] at hrounds
  rw [← hfinal] at hsimple
  exact ⟨horacle, hwell, hregistered, hrestorable, outcome, after, hminimize, hrounds, haccepted,
    hnames, hsimple 2 _ hlive rfl rfl rfl⟩

end FlatCode
