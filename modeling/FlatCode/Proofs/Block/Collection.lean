import FlatCode.Proofs.Block.Chains
import FlatCode.Proofs.Block.Matching
import FlatCode.Proofs.Results

/-!
# The boundaries of a group

The boundaries that one walk collects are those that one finds by asking for the end of the block
again and again (`Program.BoundsGroup`), also where the program is malformed elsewhere. So the
blocks between the boundaries of a group can be built, and in a well-formed program the walk from
the begin of a group finds what the enumeration lists.

* `groupBoundaries_eq_ok_iff` — the boundaries are a chain of ends
* `block_of_chained` — the blocks of a group can be built
* `groupBoundaries_iff_chain` — both, and the groups of the enumeration
-/

namespace FlatCode

/-! ## Facets of boundaries -/

theorem Facet.holds_groupBegin (instr : Instruction) :
    Facet.groupBegin.holds instr = instr.marker.beginsGroup := by
  unfold Marker.beginsGroup Instruction.marker Operation.marker
  rw [Marker.opens_ofFacets, Marker.closes_ofFacets]
  rfl

namespace Program

variable {program : Program} {n : Nat}

theorem hasFacet_groupBegin :
    program.HasFacet n .groupBegin ↔ program.markers[n]? = some .groupBegin := by
  rw [hasFacet_iff_marker Facet.holds_groupBegin]
  constructor
  · rintro ⟨m, hm, hgroup⟩
    rw [hm]
    cases m with
    | groupBegin => rfl
    | plain | divider | groupEnd => cases hgroup
  · intro hm
    exact ⟨_, hm, rfl⟩

theorem marker_eq_divider_iff : program.markers[n]? = some .divider ↔
    program.HasFacet n .blockBegin ∧ program.HasFacet n .blockEnd := by
  rw [hasFacet_blockBegin, hasFacet_blockEnd]
  constructor
  · intro hm
    exact ⟨⟨_, hm, rfl⟩, ⟨_, hm, rfl⟩⟩
  · rintro ⟨⟨m, hm, hopens⟩, ⟨m', hm', hcloses⟩⟩
    rw [hm] at hm'
    cases hm'
    rw [hm]
    cases m with
    | plain => cases hopens
    | groupBegin => cases hcloses
    | divider => rfl
    | groupEnd => cases hopens

theorem marker_eq_groupEnd_iff : program.markers[n]? = some .groupEnd ↔
    program.HasFacet n .blockEnd ∧ ¬program.HasFacet n .blockBegin := by
  rw [hasFacet_blockBegin, hasFacet_blockEnd]
  constructor
  · intro hm
    refine ⟨⟨_, hm, rfl⟩, ?_⟩
    rintro ⟨m, hm', hopens⟩
    rw [hm] at hm'
    cases hm'
    cases hopens
  · rintro ⟨⟨m, hm, hcloses⟩, hbegin⟩
    rw [hm]
    cases m with
    | plain => cases hcloses
    | groupBegin => cases hcloses
    | divider => exact absurd ⟨_, hm, rfl⟩ hbegin
    | groupEnd => rfl

end Program

/-! ## Chains of ends -/

/-- Whether places are the boundaries of the group that begins at a place: each is the end of the
block that begins at the one in front of it, and the last, and no other, begins no block. -/
structure Program.BoundsGroup (program : Program) (head : Nat) (bs : List Nat) : Prop where
  first : bs.head? = some head
  two_le : 2 ≤ bs.length
  ends : bs.IsChain fun b e : Nat => program.blockEnd b = .ok e
  dividers : ∀ n ∈ bs.tail.dropLast,
    program.HasFacet n .blockBegin ∧ program.HasFacet n .blockEnd
  last : ∀ n ∈ bs.getLast?, program.HasFacet n .blockEnd ∧ ¬program.HasFacet n .blockBegin

theorem Program.blockEnd_natCast_iff {program : Program} {b e : Nat} :
    program.blockEnd b = .ok e ↔ Paired program.markers b e := by
  rw [blockEnd_eq_ok_iff]
  constructor
  · rintro ⟨n, heq, hpaired⟩
    obtain rfl := Int.ofNat.inj heq
    exact hpaired
  · intro hpaired
    exact ⟨b, rfl, hpaired⟩

theorem Program.boundsGroup_iff {program : Program} {head : Nat} {bs : List Nat} :
    program.BoundsGroup head bs ↔
      ∃ rest, bs = head :: rest ∧ Chained program.markers head rest := by
  constructor
  · intro h
    obtain ⟨rest, rfl⟩ := List.head?_eq_some_iff.mp h.first
    -- there are two boundaries at least, so the last one is not the head
    rcases List.eq_nil_or_concat rest with rfl | ⟨dividers, last, rfl⟩
    · have htwo := h.two_le
      rw [List.length_singleton] at htwo
      omega
    rw [List.concat_eq_append] at h ⊢
    have hdividers := h.dividers
    have hlast := h.last last
    rw [List.tail_cons, List.dropLast_concat] at hdividers
    rw [← List.cons_append, List.getLast?_concat] at hlast
    refine ⟨_, rfl, chained_of_isChain ?_ ?_ ?_⟩
    · exact h.ends.imp fun _ _ hend => blockEnd_natCast_iff.mp hend
    · exact marker_eq_groupEnd_iff.mpr (hlast rfl)
    · exact fun n hn => marker_eq_divider_iff.mpr (hdividers n hn)
  · rintro ⟨rest, rfl, hchained⟩
    obtain ⟨dividers, last, rfl, hlast, hdividers⟩ := hchained.eq_concat
    refine ⟨rfl, ?_, hchained.paired.imp fun _ _ h => blockEnd_natCast_iff.mpr h, ?_, ?_⟩
    · rw [List.length_cons, List.length_append, List.length_singleton]
      omega
    · intro n hn
      rw [List.tail_cons, List.dropLast_concat] at hn
      exact marker_eq_divider_iff.mp (hdividers n hn)
    · intro n hn
      rw [← List.cons_append, List.getLast?_concat] at hn
      cases hn
      exact marker_eq_groupEnd_iff.mp hlast

/-! ## The walk of a program -/

theorem Program.groupBoundaries_eq {program : Program} {head : Nat}
    (h : program.markers[head]? = some .groupBegin) :
    program.groupBoundaries head
      = (boundariesFrom head program.markers head).map (head :: ·) := by
  obtain ⟨n, hplace⟩ := hasFacet_iff.mp (hasFacet_groupBegin.mpr h)
  obtain rfl : head = n := Int.ofNat.inj (placeWith_eq_ok_iff.mp hplace).1
  rw [groupBoundaries, hplace]
  rfl

/-- **The boundaries of a group are a chain of ends.** -/
theorem Program.groupBoundaries_eq_ok_iff {program : Program} {head : Nat} {bs : List Nat}
    (h : program.markers[head]? = some .groupBegin) :
    program.groupBoundaries head = .ok bs ↔
      ∃ rest, bs = head :: rest ∧ Chained program.markers head rest := by
  rw [groupBoundaries_eq h]
  constructor
  · intro hwalk
    obtain ⟨rest, hfrom, rfl⟩ := map_eq_ok_iff.mp hwalk
    exact ⟨rest, rfl, (boundariesFrom_eq_ok_iff h rfl).mp hfrom⟩
  · rintro ⟨rest, rfl, hchained⟩
    rw [boundariesFrom_of_chained head hchained]
    rfl

/-- The walk fails only at a block of the group that is never closed. -/
theorem Program.error_of_groupBoundaries {program : Program} {head : Nat} {e : StructureError}
    (h : program.markers[head]? = some .groupBegin)
    (he : program.groupBoundaries head = .error e) :
    e = .groupNeverClosed head ∧ ∃ (visited : List Nat) (last : Nat),
      visited.head? = some head ∧ visited.IsChain (fun b e : Nat => program.blockEnd b = .ok e) ∧
      visited.getLast? = some last ∧ program.blockEnd last = .error (.blockNeverClosed last) := by
  rw [groupBoundaries_eq h] at he
  rcases chained_or_runsOff head h rfl with
    ⟨rest, -, hfrom⟩ | ⟨visited, last, hchain, hlast, hoff, hfrom⟩
  · rw [hfrom] at he
    cases he
  · rw [hfrom] at he
    cases he
    obtain ⟨hbegin, hnone⟩ := hoff
    refine ⟨rfl, head :: visited, last, rfl,
      hchain.imp fun _ _ hpaired => blockEnd_natCast_iff.mpr hpaired, hlast, ?_⟩
    cases hend : program.blockEnd last with
    | ok e => exact absurd (blockEnd_natCast_iff.mp hend) (hnone e)
    | error e =>
      rcases error_of_blockEnd hend with ⟨hfacet, -⟩ | ⟨-, rfl⟩
      · exact absurd (hasFacet_blockBegin.mpr hbegin) hfacet
      · rfl

/-! ## Blocks of a group -/

/-- Whether a group has the boundaries of a chain that starts at a group begin. -/
def ChainedGroup (program : Program) (group : BlockGroup) : Prop :=
  ∃ head rest, group = groupOf program (head :: rest) ∧
    program.markers[head]? = some .groupBegin ∧ Chained program.markers head rest

/-- A walk that answers was asked at a group begin. -/
theorem Program.hasFacet_of_groupBoundaries {program : Program} {idx : Int} {bs : List Nat}
    (h : program.groupBoundaries idx = .ok bs) : program.HasFacet idx .groupBegin := by
  rw [Program.hasFacet_iff]
  unfold Program.groupBoundaries at h
  cases hplace : program.placeWith idx .groupBegin with
  | error e =>
    rw [hplace] at h
    cases h
  | ok n => exact ⟨n, rfl⟩

/-- **The groups with chained boundaries are those whose boundaries can be collected.** -/
theorem chainedGroup_iff {program : Program} {group : BlockGroup} :
    ChainedGroup program group ↔ ∃ (head : Nat) (bs : List Nat),
      program.groupBoundaries head = .ok bs ∧ group = groupOf program bs := by
  constructor
  · rintro ⟨head, rest, rfl, hhead, hchained⟩
    exact ⟨head, head :: rest,
      (Program.groupBoundaries_eq_ok_iff hhead).mpr ⟨rest, rfl, hchained⟩, rfl⟩
  · rintro ⟨head, bs, hwalk, rfl⟩
    have hhead := Program.hasFacet_groupBegin.mp (Program.hasFacet_of_groupBoundaries hwalk)
    obtain ⟨rest, rfl, hchained⟩ := (Program.groupBoundaries_eq_ok_iff hhead).mp hwalk
    exact ⟨head, rest, rfl, hhead, hchained⟩

/-- A group whose boundaries can be collected can be built. -/
theorem startingAt_of_groupBoundaries {program : Program} {head : Nat} {bs : List Nat}
    (h : program.groupBoundaries head = .ok bs) :
    BlockGroup.startingAt program head = .ok (groupOf program bs) := by
  have hhead := Program.hasFacet_groupBegin.mp (Program.hasFacet_of_groupBoundaries h)
  obtain ⟨rest, rfl, hchained⟩ := (Program.groupBoundaries_eq_ok_iff hhead).mp h
  obtain ⟨dividers, last, rfl, hlast, -⟩ := hchained.eq_concat
  rw [BlockGroup.startingAt, h]
  dsimp only
  rw [← List.cons_append]
  exact ofBoundaries_eq_ok dividers hhead hlast

theorem chainedGroup_of_startingAt {program : Program} {idx : Int} {group : BlockGroup}
    (h : BlockGroup.startingAt program idx = .ok group) : ChainedGroup program group := by
  cases hwalk : program.groupBoundaries idx with
  | error e =>
    rw [BlockGroup.startingAt, hwalk] at h
    cases h
  | ok bs =>
    obtain ⟨head, rfl, -⟩ := Program.hasFacet_of_groupBoundaries hwalk
    rw [startingAt_of_groupBoundaries hwalk] at h
    cases h
    exact chainedGroup_iff.mpr ⟨head, bs, hwalk, rfl⟩

theorem chainedGroup_of_surrounding {program : Program} {idx : Int} {group : BlockGroup}
    (h : BlockGroup.surrounding program idx = .ok group) : ChainedGroup program group := by
  unfold BlockGroup.surrounding at h
  cases hhead : program.groupHead idx with
  | error e =>
    rw [hhead] at h
    cases h
  | ok head =>
    rw [hhead] at h
    exact chainedGroup_of_startingAt h

theorem chainedGroup_of_mem_groups {program : Program} {gs : List BlockGroup} {group : BlockGroup}
    (hgs : program.groups = .ok gs) (h : group ∈ gs) : ChainedGroup program group := by
  have hwell := Program.isWellFormed_iff_groups.mpr ⟨gs, hgs⟩
  obtain ⟨t, ht⟩ := balanced_iff_exists_items.mp (Program.isWellFormed_iff_balanced.mp hwell)
  rw [groups_of_markers ht] at hgs
  cases hgs
  obtain ⟨bs, hbs, rfl⟩ := List.mem_map.mp h
  have hdrop : program.markers.drop 0 = t.markers ++ [] := by
    rw [List.drop_zero, List.append_nil, ht]
  obtain ⟨head, rest, rfl, hhead, hchained⟩ := t.chained_of_mem hdrop hbs
  exact ⟨head, rest, rfl, hhead, hchained⟩

theorem boundary_groupOf {program : Program} {bs : List Nat} {i n : Nat} (h : bs[i]? = some n) :
    (groupOf program bs).boundary i = .ok (n : Int) := by
  rw [BlockGroup.boundary, boundaries_groupOf, select?_natCast, List.getElem?_map, h]
  rfl

/-- **The blocks of a group can be built**: each is between a boundary and the next. -/
theorem block_of_chainedGroup {program : Program} {group : BlockGroup}
    (h : ChainedGroup program group) {i : Nat} (hi : i < group.numBlocks) :
    ∃ b e : Nat, group.boundaries[i]? = some (b : Int) ∧ group.boundaries[i + 1]? = some (e : Int) ∧
      group.block i = .ok ⟨program, b, e⟩ := by
  obtain ⟨head, rest, rfl, hhead, hchained⟩ := h
  rw [BlockGroup.numBlocks, boundaries_groupOf, List.length_map] at hi
  have hnext : i + 1 < (head :: rest).length := by omega
  have hb := List.getElem?_eq_getElem (Nat.lt_of_succ_lt hnext)
  have he := List.getElem?_eq_getElem hnext
  have hpaired := hchained.paired.getElem i hnext
  refine ⟨(head :: rest)[i], (head :: rest)[i + 1], ?_, ?_, ?_⟩
  · rw [boundaries_groupOf, List.getElem?_map, hb]
    rfl
  · rw [boundaries_groupOf, List.getElem?_map, he]
    rfl
  · have hbe : (groupOf program (head :: rest)).boundary ((i + 1 : Nat) : Int) = .ok _ :=
      boundary_groupOf he
    rw [Int.natCast_succ] at hbe
    rw [BlockGroup.block, boundary_groupOf hb]
    dsimp only
    rw [hbe]
    exact Block.ofEnds_of_paired hpaired

/-! ## Groups of the enumeration -/

theorem perm_head_groupOf (program : Program) (t : Items) :
    (((t.groups 0).map (groupOf program)).map BlockGroup.head).Perm
      ((placesOf Marker.beginsGroup 0 t.markers).map fun n : Nat => (n : Int)) := by
  have hhead : ∀ bs : List Nat, (groupOf program bs).head
      = (bs.head?.map fun n : Nat => (n : Int)).getD 0 := by
    intro bs
    rw [BlockGroup.head, boundaries_groupOf, List.head?_map]
  have hplaces := (List.perm_iff_count.mpr (t.count_heads 0)).map fun head : Option Nat =>
    (head.map fun n : Nat => (n : Int)).getD 0
  rw [List.map_map, List.map_map] at hplaces
  rw [List.map_map]
  refine List.Perm.trans (List.Perm.of_eq ?_) hplaces
  exact List.map_congr_left fun bs _ => hhead bs

/-- **Each group begin is the head of one group of the enumeration.** -/
theorem count_head_groups {program : Program} {gs : List BlockGroup} {head : Int}
    (hgs : program.groups = .ok gs) (h : program.HasFacet head .groupBegin) :
    (gs.map BlockGroup.head).count head = 1 := by
  have hwell := Program.isWellFormed_iff_groups.mpr ⟨gs, hgs⟩
  obtain ⟨t, ht⟩ := balanced_iff_exists_items.mp (Program.isWellFormed_iff_balanced.mp hwell)
  rw [groups_of_markers ht] at hgs
  cases hgs
  obtain ⟨n, rfl, -⟩ := id h
  have hnodup : ((placesOf Marker.beginsGroup 0 t.markers).map fun n : Nat => (n : Int)).Nodup := by
    rw [List.Nodup, List.pairwise_map]
    exact (nodup_placesOf _ _ _).imp fun hne heq => hne (Int.ofNat.inj heq)
  have hmem : n ∈ placesOf Marker.beginsGroup 0 t.markers := by
    rw [mem_placesOf, ht, Nat.sub_zero]
    exact ⟨Nat.zero_le n, _, Program.hasFacet_groupBegin.mp h, rfl⟩
  rw [(perm_head_groupOf program t).count_eq, hnodup.count,
    if_pos (List.mem_map.mpr ⟨n, hmem, rfl⟩)]

theorem groupBoundaries_of_chainedGroup {program : Program} {group : BlockGroup}
    (h : ChainedGroup program group) :
    (program.groupBoundaries group.head).map (List.map fun n : Nat => (n : Int))
      = .ok group.boundaries := by
  obtain ⟨head, rest, rfl, hhead, hchained⟩ := h
  have hwalk := (Program.groupBoundaries_eq_ok_iff hhead).mpr ⟨rest, rfl, hchained⟩
  change (program.groupBoundaries (head : Int)).map _ = _
  rw [hwalk]
  rfl

/-- **The enumeration of a well-formed program lists the groups with chained boundaries.** -/
theorem mem_groups_iff {program : Program} {gs : List BlockGroup} {group : BlockGroup}
    (hgs : program.groups = .ok gs) : group ∈ gs ↔ ChainedGroup program group := by
  constructor
  · exact chainedGroup_of_mem_groups hgs
  · intro h
    obtain ⟨head, rest, rfl, hhead, hchained⟩ := id h
    have hcount := count_head_groups hgs (Program.hasFacet_groupBegin.mpr hhead)
    have hmem : (head : Int) ∈ gs.map BlockGroup.head := by
      rw [← List.count_pos_iff, hcount]
      exact Nat.one_pos
    -- the group that is listed for this head is collected as this one is
    obtain ⟨listed, hlisted, hsame⟩ := List.mem_map.mp hmem
    have hother := chainedGroup_of_mem_groups hgs hlisted
    have hcollected := groupBoundaries_of_chainedGroup hother
    have hhere := groupBoundaries_of_chainedGroup h
    rw [hsame] at hcollected
    change (program.groupBoundaries (head : Int)).map _ = _ at hhere
    rw [hhere] at hcollected
    obtain ⟨head', rest', rfl, -, -⟩ := hother
    have heq : groupOf program (head :: rest) = groupOf program (head' :: rest') :=
      congrArg (BlockGroup.mk program) (Except.ok.inj hcollected)
    rw [heq]
    exact hlisted

/-- **The walk over a group finds the ends of its blocks, one after the other**, and fails only at a
block that is never closed. The blocks of any group can be built. In a well-formed program the walk
finds the groups of the enumeration, and one of them at each group begin. -/
theorem groupBoundaries_iff_chain (program : Program) :
    (∀ head : Nat, program.HasFacet head .groupBegin →
      (∀ bs, program.groupBoundaries head = .ok bs ↔ program.BoundsGroup head bs) ∧
      ∀ e, program.groupBoundaries head = .error e →
        e = .groupNeverClosed head ∧ e.kind = .malformed ∧
        ∃ (visited : List Nat) (last : Nat), visited.head? = some head ∧
          visited.IsChain (fun b e : Nat => program.blockEnd b = .ok e) ∧
          visited.getLast? = some last ∧
          program.blockEnd last = .error (.blockNeverClosed last)) ∧
    (∀ group : BlockGroup,
      ((∃ idx, BlockGroup.startingAt program idx = .ok group) ∨
        (∃ idx, BlockGroup.surrounding program idx = .ok group) ∨
        ∃ gs, program.groups = .ok gs ∧ group ∈ gs) →
      ∀ i < group.numBlocks, ∃ b e : Nat,
        group.boundaries[i]? = some (b : Int) ∧ group.boundaries[i + 1]? = some (e : Int) ∧
        group.block i = .ok ⟨program, b, e⟩) ∧
    (∀ gs, program.groups = .ok gs →
      (∀ group ∈ gs, (program.groupBoundaries group.head).map (List.map fun n : Nat => (n : Int))
        = .ok group.boundaries) ∧
      ∀ head : Int, program.HasFacet head .groupBegin →
        (gs.map BlockGroup.head).count head = 1) := by
  refine ⟨?_, ?_, ?_⟩
  · intro head hfacet
    have hhead := Program.hasFacet_groupBegin.mp hfacet
    constructor
    · intro bs
      rw [Program.groupBoundaries_eq_ok_iff hhead, Program.boundsGroup_iff]
    · intro e he
      obtain ⟨rfl, hoff⟩ := Program.error_of_groupBoundaries hhead he
      exact ⟨rfl, rfl, hoff⟩
  · rintro group (⟨idx, hgroup⟩ | ⟨idx, hgroup⟩ | ⟨gs, hgs, hmem⟩) i hi
    · exact block_of_chainedGroup (chainedGroup_of_startingAt hgroup) hi
    · exact block_of_chainedGroup (chainedGroup_of_surrounding hgroup) hi
    · exact block_of_chainedGroup (chainedGroup_of_mem_groups hgs hmem) hi
  · intro gs hgs
    constructor
    · intro group hmem
      exact groupBoundaries_of_chainedGroup (chainedGroup_of_mem_groups hgs hmem)
    · intro head hfacet
      exact count_head_groups hgs hfacet

/-- A group that is surrounded by an end and a begin of no group. -/
theorem groupBoundaries_strays :
    let strays : Program := ⟨[⟨.ofEnd "EndIf", []⟩, ⟨.ofBegin "BeginIf", []⟩,
      ⟨.ofDivider "BeginElse", []⟩, ⟨.ofEnd "EndIf", []⟩, ⟨.ofBegin "BeginIf", []⟩]⟩
    strays.isWellFormed = false ∧ strays.BoundsGroup 1 [1, 2, 3] ∧
      ∃ e, strays.groupBoundaries 4 = .error e ∧ e.kind = .malformed := by
  intro strays
  have hone : strays.HasFacet (1 : Nat) .groupBegin := ⟨1, rfl, _, rfl, rfl⟩
  have hfour : strays.HasFacet (4 : Nat) .groupBegin := ⟨4, rfl, _, rfl, rfl⟩
  refine ⟨by decide, ((groupBoundaries_iff_chain strays).1 1 hone).1 _ |>.mp rfl, _, rfl, ?_⟩
  exact (((groupBoundaries_iff_chain strays).1 4 hfour).2 _ rfl).2.1

end FlatCode
