import FlatCode.Proofs.Block.Listed
import FlatCode.Proofs.Operation.Lookup
import FlatCode.Proofs.Reduction.Removal

/-!
# Groups of a program with removed groups

Where markers are taken out of a program by whole groups, the other groups stay as they are, and the
program stays well formed: the walk that lists the groups never sees the ones that are gone
(`closingBoundaries_erased`). The boundaries of one group are taken out alone, since each marker is
a boundary of one group only; its whole range is taken out together with the groups inside.

* `boundaryLists_clear` — removing whole groups leaves the others
* `mem_range_iff_of_mem` — the markers in the range of a group are those of groups inside
-/

namespace FlatCode

/-! ## Erased markers -/

/-- The markers from a place on with those at some places taken out. -/
def erased (gone : Nat → Bool) : Nat → List Marker → List Marker
  | _, [] => []
  | idx, m :: rest => (if gone idx then .plain else m) :: erased gone (idx + 1) rest

theorem getElem?_erased (gone : Nat → Bool) (idx : Nat) (ms : List Marker) (n : Nat) :
    (erased gone idx ms)[n]? = ms[n]?.map fun m => if gone (idx + n) then .plain else m := by
  induction ms generalizing idx n with
  | nil => rfl
  | cons m ms ih =>
    cases n with
    | zero => rfl
    | succ n =>
      rw [erased, List.getElem?_cons_succ, List.getElem?_cons_succ, ih, Nat.add_right_comm]
      rfl

/-- A group that is open in front of a walk is one of those that end in it. -/
theorem exists_mem_closingBoundaries {idx : Nat} {stack : List OpenGroup}
    {instrs : List Instruction} {lists : List (List Nat)}
    (h : closingBoundaries idx stack instrs = .ok lists) {group : OpenGroup}
    (hgroup : group ∈ stack) :
    ∃ bs ∈ lists, ∃ later, bs = group.head :: (group.dividers ++ later) := by
  induction instrs generalizing idx stack lists group with
  | nil =>
    cases stack with
    | nil => cases hgroup
    | cons group outer => cases h
  | cons instr rest ih =>
    rw [closingBoundaries.eq_def] at h
    dsimp only at h
    cases hm : instr.marker with
    | plain =>
      rw [hm] at h
      exact ih h hgroup
    | groupBegin =>
      rw [hm] at h
      exact ih h (List.mem_cons_of_mem _ hgroup)
    | divider =>
      rw [hm] at h
      cases stack with
      | nil => cases hgroup
      | cons inner outer =>
        rcases List.mem_cons.mp hgroup with rfl | houter
        · obtain ⟨bs, hbs, later, rfl⟩ := ih h List.mem_cons_self
          refine ⟨_, hbs, idx :: later, ?_⟩
          dsimp only
          rw [List.append_assoc, List.singleton_append]
        · exact ih h (List.mem_cons_of_mem _ houter)
    | groupEnd =>
      rw [hm] at h
      cases stack with
      | nil => cases hgroup
      | cons inner outer =>
        dsimp only at h
        obtain ⟨later, hrest, rfl⟩ := map_eq_ok_iff.mp h
        rcases List.mem_cons.mp hgroup with rfl | houter
        · exact ⟨_, List.mem_cons_self, [idx], rfl⟩
        · obtain ⟨bs, hbs, hlater⟩ := ih hrest houter
          exact ⟨bs, List.mem_cons_of_mem _ hbs, hlater⟩

/-- Whether a group is not taken out, by its first boundary. -/
def stays (gone : Nat → Bool) (bs : List Nat) : Bool := bs.head?.all fun n => !gone n

/-- **Where whole groups are taken out, the walk lists the others.** -/
theorem closingBoundaries_erased {gone : Nat → Bool} {idx : Nat} {stack : List OpenGroup}
    {instrs others : List Instruction} {lists : List (List Nat)}
    (h : closingBoundaries idx stack instrs = .ok lists)
    (hothers : others.map Instruction.marker = erased gone idx (instrs.map Instruction.marker))
    (hwhole : ∀ bs ∈ lists, ∀ n ∈ bs, ∀ m ∈ bs, gone n = gone m) :
    closingBoundaries idx (stack.filter fun group => !gone group.head) others
      = .ok (lists.filter (stays gone)) := by
  induction instrs generalizing idx stack lists others with
  | nil =>
    obtain rfl := List.map_eq_nil_iff.mp hothers
    cases stack with
    | nil =>
      cases h
      rfl
    | cons group outer => cases h
  | cons instr rest ih =>
    rw [List.map_cons, erased] at hothers
    obtain ⟨other, others, rfl, hmarker, hrest⟩ := List.map_eq_cons_iff.mp hothers
    rw [closingBoundaries.eq_def] at h ⊢
    dsimp only at h ⊢
    rw [hmarker]
    cases hm : instr.marker with
    | plain =>
      rw [hm] at h
      rw [ite_self]
      exact ih h hrest hwhole
    | groupBegin =>
      rw [hm] at h
      have hwalk := ih h hrest hwhole
      cases hidx : gone idx with
      | true => simpa [hidx] using hwalk
      | false => simpa [hidx] using hwalk
    | divider =>
      rw [hm] at h
      cases stack with
      | nil => cases h
      | cons inner outer =>
        have hwalk := ih h hrest hwhole
        -- the divider is a boundary of the group that is open here
        obtain ⟨bs, hbs, later, rfl⟩ := exists_mem_closingBoundaries h List.mem_cons_self
        have hsame : gone idx = gone inner.head := hwhole _ hbs idx (by simp) _ List.mem_cons_self
        cases hhead : gone inner.head with
        | true => simpa [hsame, hhead] using hwalk
        | false => simpa [hsame, hhead] using hwalk
    | groupEnd =>
      rw [hm] at h
      cases stack with
      | nil => cases h
      | cons inner outer =>
        dsimp only at h
        obtain ⟨later, hlater, rfl⟩ := map_eq_ok_iff.mp h
        have hwalk := ih hlater hrest fun bs hbs => hwhole bs (List.mem_cons_of_mem _ hbs)
        have hsame : gone idx = gone inner.head :=
          hwhole _ List.mem_cons_self idx (by simp) _ List.mem_cons_self
        cases hhead : gone inner.head with
        | true => simpa [hsame, hhead, stays] using hwalk
        | false => simp [hsame, hhead, stays, hwalk, Except.map]

/-! ## Removed groups -/

section Removed

variable {program : Program} {lists : List (List Nat)} {indices : List Int}

/-- Whether a place is that of one of the indices. -/
def among (indices : List Int) (n : Nat) : Bool := indices.contains (n : Int)

theorem among_iff {n : Nat} : among indices n = true ↔ (n : Int) ∈ indices := by
  rw [among, List.contains_iff_mem]

theorem markers_clear (h : program.Registered) (indices : List Int) :
    (program.clear indices).markers = erased (among indices) 0 program.markers := by
  refine List.ext_getElem? fun n => ?_
  rw [getElem?_erased, Program.markers, Program.markers, List.getElem?_map, List.getElem?_map,
    Program.instructions_clear, Nat.zero_add]
  cases hinstr : program.instructions[n]? with
  | none => rfl
  | some instr =>
    simp only [Option.map_some, Option.some.injEq]
    by_cases hmem : (n : Int) ∈ indices
    · rw [if_pos (among_iff.mpr hmem)]
      cases hnop : instr.isNop with
      | false => simp only [hmem, and_self, if_true]; rfl
      | true =>
        -- what does nothing is left as it is, and is no marker anyway
        simp only [hmem, Bool.true_eq_false, and_false, if_false]
        exact (h instr (List.mem_of_getElem? hinstr)).marker_of_isNop hnop
    · rw [if_neg (mt among_iff.mp hmem), if_neg fun hand => hmem hand.1]

/-- Whether of each group all boundaries are at the indices, or none. -/
def WholeGroups (lists : List (List Nat)) (indices : List Int) : Prop :=
  ∀ bs ∈ lists, ∀ n ∈ bs, ∀ m ∈ bs, (n : Int) ∈ indices → (m : Int) ∈ indices

/-- **Removing whole groups leaves the others.** -/
theorem boundaryLists_clear (hregistered : program.Registered)
    (h : program.boundaryLists = .ok lists) (hwhole : WholeGroups lists indices) :
    (program.clear indices).boundaryLists = .ok (lists.filter (stays (among indices))) := by
  refine closingBoundaries_erased h (markers_clear hregistered indices) fun bs hbs n hn m hm => ?_
  rw [Bool.eq_iff_iff, among_iff, among_iff]
  exact ⟨hwhole bs hbs n hn m hm, hwhole bs hbs m hm n hn⟩

theorem stays_iff {bs : List Nat} {head tail : Nat} (h : Listed program bs head tail) :
    stays (among indices) bs = true ↔ (head : Int) ∉ indices := by
  rw [stays, h.begins, Option.all_some, Bool.not_eq_true', ← Bool.not_eq_true, among_iff]

/-- The boundaries of a group are a whole group. -/
theorem wholeGroups_boundaries (h : program.boundaryLists = .ok lists) {bs : List Nat}
    (hbs : bs ∈ lists) (other : Program) : WholeGroups lists (groupOf other bs).boundaries := by
  intro bs' hbs' n hn m hm hmem
  obtain rfl := eq_of_mem_boundaries h hbs hbs' (natCast_mem_map.mp hmem) hn
  exact List.mem_map_of_mem hm

/-- The range of a group has whole groups in it. -/
theorem wholeGroups_range (h : program.boundaryLists = .ok lists) {bs : List Nat}
    (hbs : bs ∈ lists) (other : Program) : WholeGroups lists (groupOf other bs).range := by
  obtain ⟨a, b, hlisted⟩ := listed_of_mem h hbs
  intro bs' hbs' n hn m hm hmem
  obtain ⟨c, d, hlisted'⟩ := listed_of_mem h hbs'
  rw [hlisted.mem_range] at hmem ⊢
  obtain ⟨hcm, hmd⟩ := hlisted'.within m hm
  rcases inside_of_mem_range h hbs' hlisted hlisted' hn (by omega) (by omega) with
    rfl | ⟨hac, hdb⟩
  · obtain ⟨ham, hmb⟩ := hlisted.within m hm
    omega
  · omega

end Removed

end FlatCode
