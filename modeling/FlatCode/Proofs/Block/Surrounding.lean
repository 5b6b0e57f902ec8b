import FlatCode.Proofs.Block.Collection
import FlatCode.Proofs.Block.Outline

/-!
# The group around an instruction

The group around an instruction is found in two walks: back to a group begin, and from there over
the group. The walk back stops at the begin of a group that is still open at the instruction, so the
walk forward, if it ends at all, ends behind the instruction. Any other group with the instruction
in its range is around the whole group that is found.

* `Program.groupHead_eq_ok_iff` — where the walk back stops
* `Spans.innermost` — of the groups around a place, one is inside all others
* `surrounding_iff_groupAround` — the group around an instruction is the one of smallest range
-/

namespace FlatCode

/-! ## The innermost group of a place -/

/-- Whether a group begin is where the walk back from a place stops: the place itself, or the begin
of a group that is open there. -/
def Leads (ms : List Marker) (head n : Nat) : Prop :=
  (ms[n]? = some .groupBegin ∧ head = n) ∨ (ms[n]? ≠ some .groupBegin ∧ Encloses ms head n)

theorem Leads.le {ms : List Marker} {head n : Nat} (h : Leads ms head n) : head ≤ n := by
  rcases h with ⟨-, rfl⟩ | ⟨-, h⟩
  · exact Nat.le_refl _
  · exact Nat.le_of_lt h.lt

theorem Leads.le_of_spans {ms : List Marker} {head tail n : Nat} (h : Leads ms head n)
    (h' : Spans ms head tail) : n ≤ tail := by
  rcases h with ⟨-, rfl⟩ | ⟨-, h⟩
  · exact Nat.le_of_lt h'.lt
  · exact h.le_of_spans h'

/-- **Of the groups around a place one is inside all others**, and it is the group to which the walk
back leads. -/
theorem Spans.innermost {ms : List Marker} {a b n : Nat} (h : Spans ms a b) (han : a ≤ n)
    (hnb : n ≤ b) :
    ∃ c d, Leads ms c n ∧ Spans ms c d ∧ ((a = c ∧ b = d) ∨ (a < c ∧ d < b)) := by
  by_cases hstart : n = a
  · subst hstart
    exact ⟨n, b, .inl ⟨h.begins, rfl⟩, h, .inl ⟨rfl, rfl⟩⟩
  have hlt : a < n := by omega
  by_cases hbegin : ms[n]? = some .groupBegin
  · -- a group begins here, and the group around it ends somewhere else
    have hne : n ≠ b := by
      rintro rfl
      rw [h.ends] at hbegin
      cases hbegin
    obtain ⟨d, hspans, hdb⟩ := h.nested hlt (by omega) hbegin
    exact ⟨n, d, .inl ⟨hbegin, rfl⟩, hspans, .inr ⟨hlt, hdb⟩⟩
  · obtain ⟨c, hac, hencloses⟩ := h.exists_encloses hlt hnb
    have hleads : Leads ms c n := .inr ⟨hbegin, hencloses⟩
    have hcn := hencloses.lt
    by_cases hsame : a = c
    · subst hsame
      exact ⟨a, b, hleads, h, .inl ⟨rfl, rfl⟩⟩
    · obtain ⟨d, hspans, hdb⟩ := h.nested (show a < c by omega) (by omega) hencloses.begins
      exact ⟨c, d, hleads, hspans, .inr ⟨by omega, hdb⟩⟩

/-! ## The two walks of a program -/

theorem Program.length_markers (program : Program) : program.markers.length = program.size :=
  List.length_map _

theorem Program.place_of_lt {program : Program} {n : Nat} (h : n < program.size) :
    program.place n = .ok n := by
  have hrange : 0 ≤ (n : Int) ∧ (n : Int) < program.size :=
    ⟨Int.natCast_nonneg n, Int.ofNat_lt.mpr h⟩
  rw [place, if_pos hrange, Int.toNat_natCast]

/-- **The walk back answers with the begin of the innermost group.** -/
theorem Program.groupHead_eq_ok_iff {program : Program} {n head : Nat} (h : n < program.size) :
    program.groupHead n = .ok head ↔ Leads program.markers head n := by
  have hlength : n ≤ program.markers.length := by
    rw [length_markers]
    omega
  rw [groupHead, place_of_lt h, Leads]
  dsimp only
  by_cases hbegin : program.markers[n]? = some .groupBegin
  · rw [if_pos hbegin]
    simp [hbegin, eq_comm]
  · rw [if_neg hbegin, markersBefore, walkToHead_iff_encloses hlength]
    simp [hbegin]

/-- The two ways in which the walk back fails: it is asked for no instruction, or no group is
around the instruction. -/
theorem Program.error_of_groupHead {program : Program} {idx : Int} {e : StructureError}
    (h : program.groupHead idx = .error e) :
    (¬(0 ≤ idx ∧ idx < program.size) ∧ e = .outOfRange idx program.size) ∨
      ((0 ≤ idx ∧ idx < program.size) ∧ e = .noGroupAround idx.toNat) := by
  unfold groupHead place at h
  by_cases hrange : 0 ≤ idx ∧ idx < program.size
  · rw [if_pos hrange] at h
    dsimp only at h
    by_cases hbegin : program.markers[idx.toNat]? = some .groupBegin
    · rw [if_pos hbegin] at h
      cases h
    · rw [if_neg hbegin, walkToHead_eq _ idx.toNat 0] at h
      cases hwalk : walkToBegin idx.toNat 1 (outlined (program.markersBefore idx.toNat)) with
      | error e' =>
        rw [hwalk] at h
        exact .inr ⟨hrange, (Except.error.inj h).symm⟩
      | ok head =>
        rw [hwalk] at h
        cases h
  · rw [if_neg hrange] at h
    exact .inl ⟨hrange, (Except.error.inj h).symm⟩

/-- **The walk over a group answers where the group ends**, with the end as the last boundary. -/
theorem exists_boundariesFrom_iff {ms : List Marker} {head tail : Nat}
    (hhead : ms[head]? = some .groupBegin) :
    (∃ dividers, boundariesFrom head ms head = .ok (dividers ++ [tail])) ↔ Spans ms head tail := by
  have hlast := getLast?_walkOverGroup head 0 (head + 1) (ms.drop (head + 1))
  rw [← walkToEnd_iff_spans hhead, boundariesFrom]
  constructor
  · rintro ⟨dividers, hwalk⟩
    rw [hwalk, Except.map, List.getLast?_concat] at hlast
    cases hend : walkToEnd head 1 (head + 1) (outlined (ms.drop (head + 1))) with
    | error e =>
      rw [hend] at hlast
      cases hlast
    | ok stop =>
      rw [hend] at hlast
      rw [Option.some.inj (Except.ok.inj hlast)]
  · intro hend
    rw [hend] at hlast
    cases hwalk : walkOverGroup head 1 (head + 1) (ms.drop (head + 1)) with
    | error e =>
      rw [hwalk] at hlast
      cases hlast
    | ok rest =>
      rw [hwalk] at hlast
      obtain ⟨dividers, rfl⟩ := List.getLast?_eq_some_iff.mp (Except.ok.inj hlast)
      exact ⟨dividers, rfl⟩

theorem Program.exists_groupBoundaries_of_spans {program : Program} {head tail : Nat}
    (h : Spans program.markers head tail) :
    ∃ dividers, program.groupBoundaries head = .ok (head :: (dividers ++ [tail])) := by
  obtain ⟨dividers, hwalk⟩ := (exists_boundariesFrom_iff h.begins).mpr h
  refine ⟨dividers, ?_⟩
  rw [groupBoundaries_eq h.begins, hwalk]
  rfl

theorem Chained.exists_spans {ms : List Marker} {head : Nat} {rest : List Nat}
    (hhead : ms[head]? = some .groupBegin) (h : Chained ms head rest) :
    ∃ dividers tail, rest = dividers ++ [tail] ∧ Spans ms head tail := by
  obtain ⟨dividers, tail, rfl, -⟩ := h.eq_concat
  exact ⟨dividers, tail, rfl,
    (exists_boundariesFrom_iff hhead).mp ⟨dividers, boundariesFrom_of_chained head h⟩⟩

/-- A marker that the walk back leads away from is a boundary of the group that it leads to. -/
theorem mem_boundaries_of_leads {program : Program} {head n : Nat} {m : Marker} {bs : List Nat}
    (h : Leads program.markers head n) (hm : program.markers[n]? = some m)
    (hmarks : m.marks = true) (hwalk : program.groupBoundaries head = .ok bs) : n ∈ bs := by
  have hhead := Program.hasFacet_groupBegin.mp (Program.hasFacet_of_groupBoundaries hwalk)
  obtain ⟨rest, rfl, hchained⟩ := (Program.groupBoundaries_eq_ok_iff hhead).mp hwalk
  rcases h with ⟨-, rfl⟩ | ⟨hbegin, hencloses⟩
  · exact List.mem_cons_self
  have hcloses : m.closes = true := by
    cases m with
    | plain => cases hmarks
    | groupBegin => exact absurd hm hbegin
    | divider => rfl
    | groupEnd => rfl
  -- up to the marker the walk is inside of groups that end there
  have hlt := hencloses.lt
  have hdrop : program.markers.drop (head + 1)
      = between program.markers head n ++ m :: program.markers.drop (n + 1) := by
    have hfront : head + 1 ≤ (program.markers.take n).length := by
      obtain ⟨hsize, -⟩ := List.getElem?_eq_some_iff.mp hm
      rw [List.length_take]
      omega
    have hsplit := congrArg (List.drop (head + 1)) (eq_take_cons_drop hm)
    rwa [List.drop_append_of_le_length hfront] at hsplit
  have hplace : head + 1 + (between program.markers head n).length = n := by
    obtain ⟨hsize, -⟩ := List.getElem?_eq_some_iff.mp hm
    rw [between, List.length_drop, List.length_take]
    omega
  have hfrom := boundariesFrom_of_chained head hchained
  rw [boundariesFrom, hdrop] at hfrom
  have hinner := hencloses.balanced
  rw [← outlined_between] at hinner
  have hmem := mem_of_walkOverGroup hfrom hinner hcloses
  rw [hplace] at hmem
  exact List.mem_cons_of_mem _ hmem

/-! ## Groups around an index -/

/-- Whether the boundaries of a group can be collected from its begin, and an index is in its
range. -/
structure Program.GroupAround (program : Program) (idx : Int) (group : BlockGroup) : Prop where
  collected : ∃ (head : Nat) (bs : List Nat), program.HasFacet head .groupBegin ∧
    program.groupBoundaries head = .ok bs ∧ group = groupOf program bs
  head_le : group.head ≤ idx
  le_tail : idx ≤ group.tail

@[simp] theorem head_groupOf (program : Program) (head : Nat) (rest : List Nat) :
    (groupOf program (head :: rest)).head = head := rfl

@[simp] theorem tail_groupOf (program : Program) (head tail : Nat) (dividers : List Nat) :
    (groupOf program (head :: (dividers ++ [tail]))).tail = tail := by
  rw [BlockGroup.tail, boundaries_groupOf, ← List.cons_append, List.map_append, List.map_singleton,
    List.getLast?_concat]
  rfl

/-- The range of a group, from its first to its last boundary. -/
theorem ChainedGroup.exists_spans {program : Program} {group : BlockGroup}
    (h : ChainedGroup program group) : ∃ head tail : Nat, group.head = head ∧ group.tail = tail ∧
      Spans program.markers head tail := by
  obtain ⟨head, rest, rfl, hhead, hchained⟩ := h
  obtain ⟨dividers, tail, rfl, hspans⟩ := hchained.exists_spans hhead
  exact ⟨head, tail, rfl, tail_groupOf program head tail dividers, hspans⟩

/-- A group is given by its first boundary. -/
theorem ChainedGroup.eq_of_head {program : Program} {group other : BlockGroup}
    (h : ChainedGroup program group) (h' : ChainedGroup program other)
    (hhead : group.head = other.head) : group = other := by
  have hcollected := groupBoundaries_of_chainedGroup h
  rw [hhead, groupBoundaries_of_chainedGroup h'] at hcollected
  obtain ⟨head, rest, rfl, -, -⟩ := h
  obtain ⟨head', rest', rfl, -, -⟩ := h'
  exact congrArg (BlockGroup.mk program) (Except.ok.inj hcollected).symm

theorem Program.groupAround_iff {program : Program} {idx : Int} {group : BlockGroup} :
    program.GroupAround idx group ↔
      ChainedGroup program group ∧ group.head ≤ idx ∧ idx ≤ group.tail := by
  constructor
  · rintro ⟨⟨head, bs, -, hwalk, hgroup⟩, hle, hge⟩
    exact ⟨chainedGroup_iff.mpr ⟨head, bs, hwalk, hgroup⟩, hle, hge⟩
  · rintro ⟨hchained, hle, hge⟩
    obtain ⟨head, bs, hwalk, hgroup⟩ := chainedGroup_iff.mp hchained
    exact ⟨⟨head, bs, hasFacet_of_groupBoundaries hwalk, hwalk, hgroup⟩, hle, hge⟩

theorem surrounding_eq_ok_iff {program : Program} {n : Nat} {group : BlockGroup}
    (hn : n < program.size) : BlockGroup.surrounding program n = .ok group ↔
      ∃ head bs, Leads program.markers head n ∧ program.groupBoundaries head = .ok bs ∧
        group = groupOf program bs := by
  unfold BlockGroup.surrounding
  constructor
  · intro h
    cases hhead : program.groupHead n with
    | error e =>
      rw [hhead] at h
      cases h
    | ok head =>
      rw [hhead] at h
      dsimp only at h
      cases hwalk : program.groupBoundaries head with
      | error e =>
        rw [BlockGroup.startingAt, hwalk] at h
        cases h
      | ok bs =>
        rw [startingAt_of_groupBoundaries hwalk] at h
        cases h
        exact ⟨head, bs, (Program.groupHead_eq_ok_iff hn).mp hhead, hwalk, rfl⟩
  · rintro ⟨head, bs, hleads, hwalk, rfl⟩
    rw [(Program.groupHead_eq_ok_iff hn).mpr hleads]
    exact startingAt_of_groupBoundaries hwalk

/-- The group that is found around an instruction has it in its range. -/
theorem groupAround_of_surrounding {program : Program} {n : Nat} {group : BlockGroup}
    (hn : n < program.size) (h : BlockGroup.surrounding program n = .ok group) :
    program.GroupAround n group := by
  obtain ⟨head, bs, hleads, hwalk, rfl⟩ := (surrounding_eq_ok_iff hn).mp h
  have hfacet := Program.hasFacet_of_groupBoundaries hwalk
  have hhead := Program.hasFacet_groupBegin.mp hfacet
  obtain ⟨rest, rfl, hchained⟩ := (Program.groupBoundaries_eq_ok_iff hhead).mp hwalk
  obtain ⟨dividers, tail, rfl, hspans⟩ := hchained.exists_spans hhead
  refine ⟨⟨head, _, hfacet, hwalk, rfl⟩, ?_, ?_⟩
  · rw [head_groupOf]
    exact Int.ofNat_le.mpr hleads.le
  · rw [tail_groupOf]
    exact Int.ofNat_le.mpr (hleads.le_of_spans hspans)

/-- A marker is a boundary of the group that is found around it. -/
theorem mem_boundaries_of_surrounding {program : Program} {n : Nat} {group : BlockGroup}
    {m : Marker} (hn : n < program.size) (h : BlockGroup.surrounding program n = .ok group)
    (hm : program.markers[n]? = some m) (hmarks : m.marks = true) :
    (n : Int) ∈ group.boundaries := by
  obtain ⟨head, bs, hleads, hwalk, rfl⟩ := (surrounding_eq_ok_iff hn).mp h
  exact List.mem_map_of_mem (mem_boundaries_of_leads hleads hm hmarks hwalk)

/-- **If a group is around an instruction, one is found**: this group, or one inside of it. -/
theorem exists_surrounding_of_groupAround {program : Program} {n : Nat} {other : BlockGroup}
    (hn : n < program.size) (h : program.GroupAround n other) :
    ∃ group, BlockGroup.surrounding program n = .ok group ∧
      (other = group ∨ (other.head < group.head ∧ group.tail < other.tail)) := by
  obtain ⟨hchained, hle, hge⟩ := Program.groupAround_iff.mp h
  obtain ⟨a, b, ha, hb, hspans⟩ := hchained.exists_spans
  rw [ha] at hle
  rw [hb] at hge
  obtain ⟨c, d, hleads, hinner, hsame⟩ :=
    hspans.innermost (Int.ofNat_le.mp hle) (Int.ofNat_le.mp hge)
  obtain ⟨dividers, hwalk⟩ := Program.exists_groupBoundaries_of_spans hinner
  refine ⟨_, (surrounding_eq_ok_iff hn).mpr ⟨c, _, hleads, hwalk, rfl⟩, ?_⟩
  rcases hsame with ⟨rfl, rfl⟩ | ⟨hac, hdb⟩
  · exact .inl (hchained.eq_of_head (chainedGroup_iff.mpr ⟨a, _, hwalk, rfl⟩) ha)
  · rw [head_groupOf, tail_groupOf, ha, hb]
    exact .inr ⟨Int.ofNat_lt.mpr hac, Int.ofNat_lt.mpr hdb⟩

/-- A group around an instruction is not found only where none is. -/
theorem error_of_surrounding {program : Program} {idx : Int} {e : StructureError}
    (hrange : 0 ≤ idx ∧ idx < program.size) (h : BlockGroup.surrounding program idx = .error e) :
    e.kind = .malformed := by
  unfold BlockGroup.surrounding at h
  cases hhead : program.groupHead idx with
  | error e' =>
    rw [hhead] at h
    cases h
    rcases Program.error_of_groupHead hhead with ⟨hout, -⟩ | ⟨-, rfl⟩
    · exact absurd hrange hout
    · rfl
  | ok head =>
    rw [hhead] at h
    dsimp only at h
    obtain ⟨n, rfl⟩ := Int.eq_ofNat_of_zero_le hrange.1
    have hbegin : program.markers[head]? = some .groupBegin := by
      rcases (Program.groupHead_eq_ok_iff (Int.ofNat_lt.mp hrange.2)).mp hhead with
        ⟨hbegin, rfl⟩ | ⟨-, hencloses⟩
      · exact hbegin
      · exact hencloses.begins
    cases hwalk : program.groupBoundaries head with
    | error e' =>
      rw [BlockGroup.startingAt, hwalk] at h
      cases h
      obtain ⟨rfl, -⟩ := Program.error_of_groupBoundaries hbegin hwalk
      rfl
    | ok bs =>
      rw [startingAt_of_groupBoundaries hwalk] at h
      cases h

/-- **The group around an instruction is the one of smallest range**, and it is found wherever there
is one, also where the program is malformed. A marker is one of its boundaries. In a well-formed
program it is not found only for an instruction in no group. The walk back to the begin of the group
never stops at anything else. -/
theorem surrounding_iff_groupAround (program : Program) :
    (∀ idx : Int, 0 ≤ idx → idx < program.size →
      ((∃ group, BlockGroup.surrounding program idx = .ok group) ↔
        ∃ group, program.GroupAround idx group) ∧
      (∀ group, BlockGroup.surrounding program idx = .ok group →
        program.GroupAround idx group ∧
        (∀ other, program.GroupAround idx other → other ≠ group →
          other.head < group.head ∧ group.tail < other.tail ∧ group.size < other.size) ∧
        (program.HasFacet idx .blockBegin ∨ program.HasFacet idx .blockEnd →
          idx ∈ group.boundaries)) ∧
      (∀ e, BlockGroup.surrounding program idx = .error e → e.kind = .malformed)) ∧
    (∀ gs, program.groups = .ok gs → ∀ idx : Int, 0 ≤ idx → idx < program.size →
      ((∃ e, BlockGroup.surrounding program idx = .error e) ↔
        ∀ group ∈ gs, ¬(group.head ≤ idx ∧ idx ≤ group.tail))) ∧
    (∀ (idx : Int) (start n : Nat),
      program.groupHead idx ≠ .error (.opensOnNonGroupBegin start n)) := by
  refine ⟨?_, ?_, ?_⟩
  · intro idx hnonneg hlt
    obtain ⟨n, rfl⟩ := Int.eq_ofNat_of_zero_le hnonneg
    have hn : n < program.size := Int.ofNat_lt.mp hlt
    refine ⟨⟨?_, ?_⟩, ?_, fun e => error_of_surrounding ⟨hnonneg, hlt⟩⟩
    · rintro ⟨group, hgroup⟩
      exact ⟨group, groupAround_of_surrounding hn hgroup⟩
    · rintro ⟨group, hgroup⟩
      obtain ⟨found, hfound, -⟩ := exists_surrounding_of_groupAround hn hgroup
      exact ⟨found, hfound⟩
    · intro group hgroup
      refine ⟨groupAround_of_surrounding hn hgroup, ?_, ?_⟩
      · intro other hother hne
        obtain ⟨found, hfound, hinside⟩ := exists_surrounding_of_groupAround hn hother
        rw [hgroup] at hfound
        cases hfound
        rcases hinside with rfl | ⟨hhead, htail⟩
        · exact absurd rfl hne
        · unfold BlockGroup.size
          exact ⟨hhead, htail, by omega⟩
      · intro hfacet
        have hmarker : ∃ m, program.markers[n]? = some m ∧ m.marks = true := by
          rw [Program.hasFacet_blockBegin, Program.hasFacet_blockEnd] at hfacet
          unfold Marker.marks
          rcases hfacet with ⟨m, hm, hopens⟩ | ⟨m, hm, hcloses⟩
          · exact ⟨m, hm, by simp [hopens]⟩
          · exact ⟨m, hm, by simp [hcloses]⟩
        obtain ⟨m, hm, hmarks⟩ := hmarker
        exact mem_boundaries_of_surrounding hn hgroup hm hmarks
  · intro gs hgs idx hnonneg hlt
    obtain ⟨n, rfl⟩ := Int.eq_ofNat_of_zero_le hnonneg
    have hn : n < program.size := Int.ofNat_lt.mp hlt
    constructor
    · rintro ⟨e, he⟩ group hgroup ⟨hle, hge⟩
      have haround := Program.groupAround_iff.mpr ⟨(mem_groups_iff hgs).mp hgroup, hle, hge⟩
      obtain ⟨found, hfound, -⟩ := exists_surrounding_of_groupAround hn haround
      rw [he] at hfound
      cases hfound
    · intro hnone
      cases hfound : BlockGroup.surrounding program n with
      | error e => exact ⟨e, rfl⟩
      | ok group =>
        obtain ⟨hchained, hle, hge⟩ :=
          Program.groupAround_iff.mp (groupAround_of_surrounding hn hfound)
        exact absurd ⟨hle, hge⟩ (hnone group ((mem_groups_iff hgs).mpr hchained))
  · intro idx start n h
    rcases Program.error_of_groupHead h with ⟨-, he⟩ | ⟨-, he⟩
    · cases he
    · cases he

/-- A branch behind an end of no group, in a loop that is never ended. -/
theorem surrounding_strays :
    let strays : Program := ⟨[⟨.ofEnd "EndIf", []⟩, ⟨.ofBegin "BeginWhileLoop", []⟩,
      ⟨.ofBegin "BeginIf", []⟩, ⟨.ofSimple "LoadInteger", [.int 1]⟩, ⟨.ofDivider "BeginElse", []⟩,
      ⟨.ofEnd "EndIf", []⟩]⟩
    strays.isWellFormed = false ∧
      (∃ group, BlockGroup.surrounding strays 4 = .ok group ∧ strays.GroupAround 4 group ∧
        group.boundaries = [2, 4, 5]) ∧
      ∃ e, BlockGroup.surrounding strays 1 = .error e ∧ e.kind = .malformed := by
  intro strays
  have h := (surrounding_iff_groupAround strays).1
  have hfound : BlockGroup.surrounding strays 4 = .ok (groupOf strays [2, 4, 5]) := rfl
  refine ⟨by decide, ⟨_, hfound, ?_, rfl⟩, _, rfl, ?_⟩
  · exact ((h 4 (by decide) (by decide)).2.1 _ hfound).1
  · exact (h 1 (by decide) (by decide)).2.2 _ rfl

end FlatCode
