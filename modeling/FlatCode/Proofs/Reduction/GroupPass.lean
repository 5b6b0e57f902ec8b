import FlatCode.Proofs.Block.Erasure
import FlatCode.Proofs.Reduction.InStep

/-!
# Going through the groups

The reducer of groups goes through the groups that the program had at the start. Those that are
still ahead are groups of the program at any time (`Ahead`): an inner group is visited before the
outer one, so what is removed is whole groups that have been visited. So no group is passed over,
and what is asked about is well formed.

* `Ahead.clear_range`, `Ahead.clear_boundaries` — removing a group leaves the ones ahead
* `tryGroup_ahead`, `removeGroups_ahead` — what a visit, and visits, leave ahead
-/

namespace FlatCode

variable {σ ε : Type}

/-! ## Groups ahead -/

/-- Whether some groups are the last ones that a program lists. -/
structure Ahead (program : Program) (rest : List (List Nat)) : Prop where
  registered : program.Registered
  listed : ∃ kept, program.boundaryLists = .ok (kept ++ rest)

theorem Thinned.registered {p q : Program} (h : Thinned p q) (hp : p.Registered) :
    q.Registered := by
  intro instr hinstr
  obtain ⟨n, hn⟩ := List.mem_iff_getElem?.mp hinstr
  obtain ⟨hlt, -⟩ := List.getElem?_eq_some_iff.mp hn
  have hbefore := List.getElem?_eq_getElem (hlt.trans_eq h.size)
  rcases h.kept_or_removed n _ hbefore with hkept | ⟨-, hremoved⟩
  · rw [hkept] at hn
    exact hp instr (List.mem_of_getElem? (hbefore.trans hn))
  · rw [hremoved] at hn
    cases hn
    exact Instruction.registered_of_builtin List.mem_cons_self []

theorem Program.Registered.clear {program : Program} (h : program.Registered)
    (indices : List Int) : (program.clear indices).Registered :=
  (thinned_clear program indices).registered h

theorem Ahead.start {program : Program} (hregistered : program.Registered)
    {lists : List (List Nat)} (h : program.boundaryLists = .ok lists) : Ahead program lists :=
  ⟨hregistered, [], h⟩

section Ahead

variable {program : Program} {bs : List Nat} {rest : List (List Nat)}

theorem Ahead.isWellFormed (h : Ahead program rest) : program.isWellFormed = true := by
  obtain ⟨kept, hlists⟩ := h.listed
  exact exists_boundaryLists_iff.mp ⟨_, hlists⟩

theorem Ahead.exists_listed (h : Ahead program (bs :: rest)) :
    ∃ head tail, Listed program bs head tail := by
  obtain ⟨kept, hlists⟩ := h.listed
  exact listed_of_mem hlists (by simp)

theorem Ahead.skip (h : Ahead program (bs :: rest)) : Ahead program rest := by
  obtain ⟨kept, hlists⟩ := h.listed
  refine ⟨h.registered, kept ++ [bs], ?_⟩
  rw [hlists, List.append_assoc, List.singleton_append]

/-- **Removing whole groups, and nothing behind the end of a group, leaves the groups that end
behind it**, and some of the others. -/
theorem boundaryLists_clear_upTo {kept : List (List Nat)} (hregistered : program.Registered)
    (h : program.boundaryLists = .ok (kept ++ bs :: rest)) {head tail : Nat}
    (hlisted : Listed program bs head tail) {indices : List Int}
    (hwhole : WholeGroups (kept ++ bs :: rest) indices)
    (hbefore : ∀ n : Nat, (n : Int) ∈ indices → n ≤ tail) :
    (program.clear indices).boundaryLists
      = .ok ((kept ++ [bs]).filter (stays (among indices)) ++ rest) := by
  have hends := (List.pairwise_append.mp (pairwise_ends h)).2.1
  have hstays : ∀ bs' ∈ rest, stays (among indices) bs' = true := by
    intro bs' hbs'
    have hmem : bs' ∈ kept ++ bs :: rest := List.mem_append_right _ (List.mem_cons_of_mem _ hbs')
    obtain ⟨head', tail', hlisted'⟩ := listed_of_mem h hmem
    have hlt := List.rel_of_pairwise_cons hends hbs' tail hlisted.ends tail' hlisted'.ends
    rw [stays_iff hlisted']
    intro hin
    -- with its begin its end would be removed too
    have hend := hbefore tail' (hwhole bs' hmem _ hlisted'.head_mem _ hlisted'.tail_mem hin)
    omega
  rw [boundaryLists_clear hregistered h hwhole, List.append_cons, List.filter_append,
    List.filter_eq_self.mpr hstays]

theorem Ahead.clear (h : Ahead program (bs :: rest)) {head tail : Nat}
    (hlisted : Listed program bs head tail) {indices : List Int}
    (hwhole : ∀ lists, program.boundaryLists = .ok lists → bs ∈ lists → WholeGroups lists indices)
    (hbefore : ∀ n : Nat, (n : Int) ∈ indices → n ≤ tail) :
    Ahead (program.clear indices) rest := by
  obtain ⟨kept, hlists⟩ := h.listed
  exact ⟨h.registered.clear indices, _, boundaryLists_clear_upTo h.registered hlists hlisted
    (hwhole _ hlists (by simp)) hbefore⟩

theorem Ahead.clear_range (h : Ahead program (bs :: rest)) (other : Program) :
    Ahead (program.clear (groupOf other bs).range) rest := by
  obtain ⟨head, tail, hlisted⟩ := h.exists_listed
  refine h.clear hlisted (fun _ hlists hbs => wholeGroups_range hlists hbs other) fun n hn => ?_
  rw [hlisted.mem_range] at hn
  omega

theorem Ahead.clear_boundaries (h : Ahead program (bs :: rest)) (other : Program) :
    Ahead (program.clear (groupOf other bs).boundaries) rest := by
  obtain ⟨head, tail, hlisted⟩ := h.exists_listed
  refine h.clear hlisted (fun _ hlists hbs => wholeGroups_boundaries hlists hbs other)
    fun n hn => (hlisted.within n (natCast_mem_map.mp hn)).2

theorem Listed.hasIndices_range {head tail : Nat} (h : Listed program bs head tail)
    (other : Program) : program.HasIndices (groupOf other bs).range := by
  intro idx hidx
  have hsize := h.lt_size h.tail_mem
  rw [h.mem_range] at hidx
  omega

theorem Listed.hasIndices_boundaries {head tail : Nat} (h : Listed program bs head tail)
    (other : Program) : program.HasIndices (groupOf other bs).boundaries := by
  intro idx hidx
  obtain ⟨n, hn, rfl⟩ := List.mem_map.mp hidx
  have hsize := h.lt_size hn
  omega

/-- All boundaries of a group do something. -/
theorem Listed.isLive_of_mem {head tail : Nat} (h : Listed program bs head tail)
    (hregistered : program.Registered) {n : Nat} (hn : n ∈ bs) : program.isLive n = true := by
  obtain ⟨m, hm, hmarks⟩ := h.marks hn
  obtain ⟨instr, hinstr, rfl⟩ := Program.exists_instruction_of_marker hm
  refine Program.isLive_natCast_iff.mpr ⟨instr, hinstr, ?_⟩
  cases hnop : instr.isNop with
  | false => rfl
  | true =>
    rw [(hregistered instr (List.mem_of_getElem? hinstr)).marker_of_isNop hnop] at hmarks
    cases hmarks

end Ahead

/-! ## A visit -/

section Visit

variable {oracle : Oracle σ ε} {run : Run σ} {bs : List Nat} {rest : List (List Nat)}

/-- A group of the program is not passed over. -/
theorem Listed.removeGroups_eq {head tail : Nat} (h : Listed run.program bs head tail)
    (oracle : Oracle σ ε) (other : Program) (later : List BlockGroup) :
    removeGroups oracle (groupOf other bs :: later) run
      = match tryGroup oracle (groupOf other bs) run with
        | (.error e, after) => (.error e, after)
        | (.ok (), after) => removeGroups oracle later after := by
  obtain ⟨n, heq, instr, hinstr, hbegin⟩ := h.hasFacet
  obtain rfl := Int.ofNat.inj heq
  have hbegin' : instr.operation.groupBegin = true := hbegin
  have hvisited : ¬(!instr.operation.groupBegin) = true := by
    rw [hbegin']
    exact Bool.false_ne_true
  rw [removeGroups_cons, h.head_groupOf, Program.at?_natCast, hinstr]
  exact if_neg hvisited

/-- **A group that is ahead is not passed over.** -/
theorem Ahead.removeGroups_eq (h : Ahead run.program (bs :: rest)) (oracle : Oracle σ ε)
    (other : Program) (later : List BlockGroup) :
    removeGroups oracle (groupOf other bs :: later) run
      = match tryGroup oracle (groupOf other bs) run with
        | (.error e, after) => (.error e, after)
        | (.ok (), after) => removeGroups oracle later after := by
  obtain ⟨head, tail, hlisted⟩ := h.exists_listed
  exact hlisted.removeGroups_eq oracle other later

/-- What a visit makes of the program. -/
theorem program_of_tryGroup (hleaves : oracle.LeavesProgram) (group : BlockGroup) (run : Run σ) :
    (tryGroup oracle group run).2.program = run.program ∨
      (tryGroup oracle group run).2.program = run.program.clear group.range ∨
      (tryGroup oracle group run).2.program = run.program.clear group.boundaries := by
  unfold tryGroup
  rcases hwhole : attempt oracle group.range run with ⟨answer, whole⟩
  have hprogram := program_of_attempt hleaves hwhole
  cases answer with
  | error e => exact .inl hprogram
  | ok removed =>
    cases removed with
    | true => exact .inr (.inl hprogram)
    | false =>
      dsimp only at hprogram ⊢
      rw [← hprogram]
      rcases hnext : attempt oracle group.boundaries whole with ⟨answer, after⟩
      have hafter := program_of_attempt hleaves hnext
      cases answer with
      | error e => exact .inl hafter
      | ok removed =>
        cases removed with
        | true => exact .inr (.inr hafter)
        | false => exact .inl hafter

/-- **A visit leaves the other groups ahead**, also one that fails. -/
theorem tryGroup_ahead (hleaves : oracle.LeavesProgram) (h : Ahead run.program (bs :: rest))
    (other : Program) : Ahead (tryGroup oracle (groupOf other bs) run).2.program rest := by
  rcases program_of_tryGroup hleaves (groupOf other bs) run with hsame | hrange | hboundaries
  · rw [hsame]
    exact h.skip
  · rw [hrange]
    exact h.clear_range other
  · rw [hboundaries]
    exact h.clear_boundaries other

/-- **A guard makes no difference to a visit.** -/
theorem tryGroup_guarded (hleaves : oracle.LeavesProgram) (h : Ahead run.program (bs :: rest))
    (other : Program) (required : Bool) :
    tryGroup (oracle.guarded required) (groupOf other bs) run
      = tryGroup oracle (groupOf other bs) run := by
  unfold tryGroup
  rw [attempt_guarded (h.clear_range other).isWellFormed]
  rcases hwhole : attempt oracle (groupOf other bs).range run with ⟨answer, whole⟩
  have hprogram := program_of_attempt hleaves hwhole
  cases answer with
  | error e => rfl
  | ok removed =>
    cases removed with
    | true => rfl
    | false =>
      dsimp only at hprogram ⊢
      have hwell := (h.clear_boundaries other).isWellFormed
      rw [← hprogram] at hwell
      rw [attempt_guarded hwell]

end Visit

/-! ## All visits -/

section Visits

variable {oracle : Oracle σ ε}

theorem removeGroups_append (oracle : Oracle σ ε) (visited later : List BlockGroup)
    (run : Run σ) :
    removeGroups oracle (visited ++ later) run
      = match removeGroups oracle visited run with
        | (.error e, now) => (.error e, now)
        | (.ok (), now) => removeGroups oracle later now := by
  induction visited generalizing run with
  | nil => rfl
  | cons group visited ih =>
    rw [List.cons_append, removeGroups_cons, removeGroups_cons]
    cases run.program.at? group.head with
    | none => rfl
    | some instr =>
      dsimp only
      split
      · exact ih run
      · rcases tryGroup oracle group run with ⟨answer, after⟩
        cases answer with
        | error e => rfl
        | ok u => exact ih after

variable {run now : Run σ} {lists visited rest : List (List Nat)}

/-- **Visits leave ahead what has not been visited.** -/
theorem removeGroups_ahead (hleaves : oracle.LeavesProgram) (other : Program)
    (h : Ahead run.program (visited ++ rest))
    (hvisits : removeGroups oracle (visited.map (groupOf other)) run = (.ok (), now)) :
    Ahead now.program rest := by
  induction visited generalizing run with
  | nil =>
    cases hvisits
    exact h
  | cons bs visited ih =>
    have hvisit := tryGroup_ahead hleaves h other
    rw [List.map_cons, h.removeGroups_eq oracle other] at hvisits
    rcases htry : tryGroup oracle (groupOf other bs) run with ⟨answer, after⟩
    rw [htry] at hvisit hvisits
    cases answer with
    | error e => cases hvisits
    | ok u => exact ih hvisit hvisits

/-- However the visits end, the program is well formed. -/
theorem isWellFormed_removeGroups (hleaves : oracle.LeavesProgram) (other : Program)
    (h : Ahead run.program lists) :
    (removeGroups oracle (lists.map (groupOf other)) run).2.program.isWellFormed = true := by
  induction lists generalizing run with
  | nil => exact h.isWellFormed
  | cons bs rest ih =>
    have hvisit := tryGroup_ahead hleaves h other
    rw [List.map_cons, h.removeGroups_eq oracle other]
    rcases htry : tryGroup oracle (groupOf other bs) run with ⟨answer, after⟩
    rw [htry] at hvisit
    cases answer with
    | error e => exact hvisit.isWellFormed
    | ok u => exact ih hvisit

/-- **A guard makes no difference to the visits.** -/
theorem removeGroups_guarded (hleaves : oracle.LeavesProgram) (other : Program)
    (h : Ahead run.program lists) (required : Bool) :
    removeGroups (oracle.guarded required) (lists.map (groupOf other)) run
      = removeGroups oracle (lists.map (groupOf other)) run := by
  induction lists generalizing run with
  | nil => rfl
  | cons bs rest ih =>
    have hvisit := tryGroup_ahead hleaves h other
    rw [List.map_cons, h.removeGroups_eq _ other, h.removeGroups_eq _ other,
      tryGroup_guarded hleaves h other required]
    rcases htry : tryGroup oracle (groupOf other bs) run with ⟨answer, after⟩
    rw [htry] at hvisit
    cases answer with
    | error e => rfl
    | ok u => exact ih hvisit

end Visits

end FlatCode
