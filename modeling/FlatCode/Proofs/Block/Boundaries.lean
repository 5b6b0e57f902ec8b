import FlatCode.Proofs.Block.Partition

/-!
# Which lists of boundaries make a group

A group can be built from any list whose two ends are those of a group (`Program.GroupEnds`). What
stands between the ends is looked at when the blocks of the group are built: one can be built where
its two boundaries match. All of them can be built exactly if the list is the one that the walk from
its first boundary collects, and then the boundaries are in order and in the program.

* `ofBoundaries_eq_ok_iff` — a group is built from its ends
* `block_between` — a block is built from matching boundaries
* `chainedGroup_iff_blocks`, `chainedGroup_iff_collected` — the groups all of whose blocks can be
  built are those that the walk collects
* `ofBoundaries_iff_groupEnds` — lists of boundaries, blocks and the walk over a group
-/

namespace FlatCode

/-! ## The ends of a list -/

/-- Whether an index, from the end if it is negative, selects an instruction of a kind. -/
def Program.Selects (program : Program) (kind : Operation → Bool) (idx : Int) : Prop :=
  ∃ instr, program.at? idx = some instr ∧ kind instr.operation = true

/-- Whether a list has two boundaries at least, the first one selects the begin of a group and the
last one the end of a group. -/
structure Program.GroupEnds (program : Program) (boundaries : List Int) : Prop where
  two_le : 2 ≤ boundaries.length
  begins : ∃ head ∈ boundaries.head?, program.Selects Operation.groupBegin head
  ends : ∃ tail ∈ boundaries.getLast?, program.Selects Operation.groupEnd tail

section Ends

variable {program : Program} {boundaries : List Int} {group : BlockGroup} {head tail : Int}

theorem head_of_head? (h : boundaries.head? = some head) :
    (BlockGroup.mk program boundaries).head = head := by
  rw [BlockGroup.head, h]
  rfl

theorem tail_of_getLast? (h : boundaries.getLast? = some tail) :
    (BlockGroup.mk program boundaries).tail = tail := by
  rw [BlockGroup.tail, h]
  rfl

theorem Program.selects_iff_of_at? {kind : Operation → Bool} {idx : Int} {instr : Instruction}
    (h : program.at? idx = some instr) :
    program.Selects kind idx ↔ kind instr.operation = true := by
  unfold Program.Selects
  rw [h]
  constructor
  · rintro ⟨_, heq, hkind⟩
    cases heq
    exact hkind
  · exact fun hkind => ⟨instr, rfl, hkind⟩

theorem Program.not_selects_of_at? {kind : Operation → Bool} {idx : Int}
    (h : program.at? idx = none) : ¬program.Selects kind idx := by
  rintro ⟨instr, hinstr, -⟩
  rw [h] at hinstr
  cases hinstr

theorem Program.groupEnds_iff (hlength : 2 ≤ boundaries.length)
    (hhead : boundaries.head? = some head) (htail : boundaries.getLast? = some tail) :
    program.GroupEnds boundaries ↔ program.Selects Operation.groupBegin head ∧
      program.Selects Operation.groupEnd tail := by
  constructor
  · rintro ⟨-, ⟨b, hb, hbegin⟩, ⟨e, he, hend⟩⟩
    rw [hhead] at hb
    rw [htail] at he
    cases hb
    cases he
    exact ⟨hbegin, hend⟩
  · rintro ⟨hbegin, hend⟩
    exact ⟨hlength, ⟨head, hhead, hbegin⟩, ⟨tail, htail, hend⟩⟩

/-- What comes of a list of boundaries: a group, an error about the markers at its ends, or the
error that an end of it selects nothing. -/
theorem ofBoundaries_cases (program : Program) (boundaries : List Int) :
    (program.GroupEnds boundaries ∧
      BlockGroup.ofBoundaries program boundaries = .ok ⟨program, boundaries⟩) ∨
    ¬program.GroupEnds boundaries ∧ ∃ e, BlockGroup.ofBoundaries program boundaries = .error e ∧
      (e.kind = .malformed ∨
        ∃ idx, (idx ∈ boundaries.head? ∨ idx ∈ boundaries.getLast?) ∧ program.at? idx = none) := by
  unfold BlockGroup.ofBoundaries
  by_cases hshort : boundaries.length < 2
  · rw [if_pos hshort]
    exact .inr ⟨fun h => absurd h.two_le (by omega), _, rfl, .inl rfl⟩
  have hne : boundaries ≠ [] := by
    rintro rfl
    exact hshort (by decide)
  have hhead := List.head?_eq_some_head hne
  have htail := List.getLast?_eq_some_getLast hne
  have hends : program.GroupEnds boundaries ↔ _ :=
    Program.groupEnds_iff (by omega) hhead htail
  generalize boundaries.head hne = head at hhead hends
  generalize boundaries.getLast hne = tail at htail hends
  rw [if_neg hshort, head_of_head? hhead, tail_of_getLast? htail, hends]
  cases hfirst : program.at? head with
  | none =>
    exact .inr ⟨fun h => Program.not_selects_of_at? hfirst h.1, _, rfl,
      .inr ⟨head, .inl hhead, hfirst⟩⟩
  | some first =>
    dsimp only
    rw [Program.selects_iff_of_at? hfirst]
    cases hbegin : first.operation.groupBegin with
    | false => exact .inr ⟨fun h => absurd h.1 (by decide), _, rfl, .inl rfl⟩
    | true =>
      rw [if_neg (by decide)]
      cases hlast : program.at? tail with
      | none =>
        exact .inr ⟨fun h => Program.not_selects_of_at? hlast h.2, _, rfl,
          .inr ⟨tail, .inr htail, hlast⟩⟩
      | some last =>
        dsimp only
        rw [Program.selects_iff_of_at? hlast]
        cases hend : last.operation.groupEnd with
        | false => exact .inr ⟨fun h => absurd h.2 (by decide), _, rfl, .inl rfl⟩
        | true => exact .inl ⟨⟨rfl, rfl⟩, rfl⟩

/-- **A group is built from the ends of its list**, and nothing else is looked at. -/
theorem ofBoundaries_eq_ok_iff :
    BlockGroup.ofBoundaries program boundaries = .ok group ↔
      program.GroupEnds boundaries ∧ group = ⟨program, boundaries⟩ := by
  rcases ofBoundaries_cases program boundaries with ⟨hends, hbuilt⟩ | ⟨hends, e, hbuilt, -⟩
  · rw [hbuilt]
    constructor
    · intro h
      cases h
      exact ⟨hends, rfl⟩
    · rintro ⟨-, rfl⟩
      rfl
  · rw [hbuilt]
    constructor
    · intro h
      cases h
    · rintro ⟨h, -⟩
      exact absurd h hends

end Ends

/-! ## Blocks between boundaries -/

section Blocks

variable {program : Program} {group : BlockGroup} {b e : Int} {block : Block} {i : Nat}

variable {error : StructureError} {idx : Int}

theorem Program.kind_of_placeWith {facet : Facet} (h : program.placeWith idx facet = .error error) :
    error.kind ≠ .selection := by
  rw [(Program.error_of_placeWith h).2]
  nofun

theorem Program.kind_of_blockBegin (h : program.blockBegin idx = .error error) :
    error.kind ≠ .selection := by
  rcases Program.error_of_blockBegin h with ⟨-, hkind⟩ | ⟨-, rfl⟩
  · rw [hkind]
    nofun
  · nofun

theorem Program.kind_of_blockEnd (h : program.blockEnd idx = .error error) :
    error.kind ≠ .selection := by
  rcases Program.error_of_blockEnd h with ⟨-, hkind⟩ | ⟨-, rfl⟩
  · rw [hkind]
    nofun
  · nofun

/-- A block is refused with an error about the structure of the program. -/
theorem Block.kind_of_ofEnds (h : Block.ofEnds program b e = .error error) :
    error.kind ≠ .selection := by
  unfold Block.ofEnds at h
  split at h
  · next hfirst =>
    cases h
    exact Program.kind_of_placeWith hfirst
  · split at h
    · next hlast =>
      cases h
      exact Program.kind_of_placeWith hlast
    · split at h
      · next hbegin =>
        cases h
        exact Program.kind_of_blockBegin hbegin
      · split at h
        · cases h
          nofun
        · split at h
          · next hend =>
            cases h
            exact Program.kind_of_blockEnd hend
          · split at h
            · cases h
              nofun
            · cases h

/-- **A block is built from two indices that match.** -/
theorem Block.ofEnds_eq_ok_iff : Block.ofEnds program b e = .ok block ↔
    program.Matches b e ∧ block = ⟨program, b.toNat, e.toNat⟩ := by
  rw [Program.matches_iff_paired]
  constructor
  · intro h
    obtain ⟨m, n, rfl, rfl, hpaired⟩ := Block.paired_of_ofEnds h
    rw [Block.ofEnds_of_paired hpaired] at h
    cases h
    exact ⟨⟨m, n, rfl, rfl, hpaired⟩, rfl⟩
  · rintro ⟨⟨m, n, rfl, rfl, hpaired⟩, rfl⟩
    exact Block.ofEnds_of_paired hpaired

/-- The block at a position is between the boundary there and the next. -/
theorem block_eq_ofEnds (hb : group.boundaries[i]? = some b)
    (he : group.boundaries[i + 1]? = some e) :
    group.block i = Block.ofEnds group.program b e := by
  have hnext : group.boundary ((i : Int) + 1) = .ok e := by
    rw [BlockGroup.boundary, ← Int.natCast_succ, select?_natCast, he]
  rw [BlockGroup.block, BlockGroup.boundary, select?_natCast, hb]
  dsimp only
  rw [hnext]

/-- There are two boundaries for each block. -/
theorem exists_boundaries (hi : i < group.numBlocks) :
    ∃ b e, group.boundaries[i]? = some b ∧ group.boundaries[i + 1]? = some e := by
  rw [BlockGroup.numBlocks] at hi
  have hnext : i + 1 < group.boundaries.length := by omega
  exact ⟨_, _, List.getElem?_eq_getElem (Nat.lt_of_succ_lt hnext), List.getElem?_eq_getElem hnext⟩

/-- **A block is judged by the two boundaries around it**: it can be built if the block that begins
at the first one ends at the other, and then these are its ends. -/
theorem block_between (hi : i < group.numBlocks) :
    ∃ b e, group.boundaries[i]? = some b ∧ group.boundaries[i + 1]? = some e ∧
      ((∃ block, group.block i = .ok block) ↔
        (group.program.blockEnd b).map (fun n : Nat => (n : Int)) = .ok e) ∧
      (∀ block, group.block i = .ok block → (block.head : Int) = b ∧ (block.tail : Int) = e) ∧
      ∀ error, group.block i = .error error → error.kind ≠ .selection := by
  obtain ⟨b, e, hb, he⟩ := exists_boundaries hi
  rw [block_eq_ofEnds hb he]
  refine ⟨b, e, hb, he, ?_, fun block hblock => ?_, fun error => Block.kind_of_ofEnds⟩
  · rw [Program.blockEnd_iff_matches]
    constructor
    · rintro ⟨block, hblock⟩
      exact (Block.ofEnds_eq_ok_iff.mp hblock).1
    · intro hmatches
      exact ⟨_, Block.ofEnds_eq_ok_iff.mpr ⟨hmatches, rfl⟩⟩
  · obtain ⟨hmatches, rfl⟩ := Block.ofEnds_eq_ok_iff.mp hblock
    obtain ⟨m, n, rfl, rfl, -⟩ := Program.matches_iff_paired.mp hmatches
    exact ⟨rfl, rfl⟩

/-- All blocks of a group can be built where each boundary matches the next. -/
theorem blocks_iff_isChain : (∀ i < group.numBlocks, ∃ block, group.block i = .ok block) ↔
    group.boundaries.IsChain group.program.Matches := by
  rw [List.isChain_iff_getElem]
  constructor
  · intro h i hi
    obtain ⟨block, hblock⟩ := h i (by rw [BlockGroup.numBlocks]; omega)
    rw [block_eq_ofEnds (List.getElem?_eq_getElem (Nat.lt_of_succ_lt hi))
      (List.getElem?_eq_getElem hi)] at hblock
    exact (Block.ofEnds_eq_ok_iff.mp hblock).1
  · intro h i hi
    obtain ⟨b, e, hb, he⟩ := exists_boundaries hi
    obtain ⟨hlt, rfl⟩ := List.getElem?_eq_some_iff.mp hb
    obtain ⟨hlt', rfl⟩ := List.getElem?_eq_some_iff.mp he
    exact ⟨_, (block_eq_ofEnds hb he).trans (Block.ofEnds_eq_ok_iff.mpr ⟨h i hlt', rfl⟩)⟩

end Blocks

/-! ## Chains of matching boundaries -/

/-- Indices each of which matches the next are places of the program. -/
theorem exists_places_of_isChain {program : Program} {b : Int} {boundaries : List Int}
    (h : (b :: boundaries).IsChain program.Matches) (hne : boundaries ≠ []) :
    ∃ (n : Nat) (rest : List Nat), b :: boundaries = (n :: rest).map (fun n : Nat => (n : Int)) ∧
      (n :: rest).IsChain (Paired program.markers) := by
  induction boundaries generalizing b with
  | nil => exact absurd rfl hne
  | cons e boundaries ih =>
    obtain ⟨hmatches, hrest⟩ := List.isChain_cons_cons.mp h
    obtain ⟨n, m, rfl, rfl, hpaired⟩ := Program.matches_iff_paired.mp hmatches
    cases boundaries with
    | nil => exact ⟨n, [m], rfl, .cons_cons hpaired (.singleton m)⟩
    | cons e' boundaries =>
      obtain ⟨m', rest, hplaces, hchain⟩ := ih hrest (by simp)
      obtain rfl : m = m' := Int.ofNat.inj (List.cons.inj hplaces).1
      exact ⟨n, m :: rest, congrArg (List.cons (n : Int)) hplaces, .cons_cons hpaired hchain⟩

/-- Paired markers in a row are the boundaries of a group if the last one ends it: the others end a
block and begin the next. -/
theorem Chained.of_isChain {ms : List Marker} {b last : Nat} {rest : List Nat}
    (h : (b :: rest).IsChain (Paired ms)) (hlast : rest.getLast? = some last)
    (hend : ms[last]? = some .groupEnd) : Chained ms b rest := by
  induction rest generalizing b with
  | nil => cases hlast
  | cons e rest ih =>
    obtain ⟨hpaired, hrest⟩ := List.isChain_cons_cons.mp h
    cases rest with
    | nil =>
      cases hlast
      exact .last hpaired hend
    | cons e' rest =>
      refine .next hpaired ?_ (ih hrest (by rwa [List.getLast?_cons_cons] at hlast))
      obtain ⟨-, ⟨m, hm, hopens⟩, -⟩ := paired_iff.mp (List.isChain_cons_cons.mp hrest).1
      rcases hpaired.closing with hdivider | hgroupEnd
      · exact hdivider
      · rw [hgroupEnd] at hm
        cases hm
        cases hopens

/-- At a place the begin of a group is selected where its marker is. -/
theorem Program.selects_natCast_iff {program : Program} {kind : Operation → Bool} {marker : Marker}
    (hkind : ∀ op : Operation, kind op = true ↔ op.marker = marker) {n : Nat} :
    program.Selects kind n ↔ program.markers[n]? = some marker := by
  unfold Program.Selects
  rw [Program.at?_natCast]
  constructor
  · rintro ⟨instr, hinstr, hholds⟩
    rw [marker_of_instruction hinstr]
    exact congrArg some ((hkind _).mp hholds)
  · intro hm
    obtain ⟨instr, hinstr, hmarker⟩ := exists_instruction_of_marker hm
    exact ⟨instr, hinstr, (hkind _).mpr hmarker⟩

/-- **A group has the boundaries of a chain exactly if its blocks can be built.** -/
theorem chainedGroup_iff_blocks {program : Program} {boundaries : List Int}
    (h : program.GroupEnds boundaries) :
    ChainedGroup program ⟨program, boundaries⟩ ↔
      ∀ i < (BlockGroup.mk program boundaries).numBlocks,
        ∃ block, (BlockGroup.mk program boundaries).block i = .ok block := by
  constructor
  · intro hchained i hi
    obtain ⟨b, e, -, -, hblock⟩ := block_of_chainedGroup hchained hi
    exact ⟨_, hblock⟩
  · intro hblocks
    have hchain := blocks_iff_isChain.mp hblocks
    obtain ⟨htwo, ⟨head, hhead, hbegin⟩, ⟨tail, htail, hend⟩⟩ := h
    obtain ⟨rest, rfl⟩ := List.head?_eq_some_iff.mp hhead
    have hne : rest ≠ [] := by
      rintro rfl
      simp at htwo
    obtain ⟨n, places, hplaces, hpaired⟩ := exists_places_of_isChain hchain hne
    obtain ⟨rfl, rfl⟩ := List.cons.inj hplaces
    rw [Program.selects_natCast_iff fun _ => Operation.groupBegin_iff] at hbegin
    -- the last boundary is not the first one
    have hlast : (places.map fun n : Nat => (n : Int)).getLast? = some tail := by
      obtain ⟨m, more, heq⟩ := List.exists_cons_of_ne_nil hne
      rw [heq] at htail ⊢
      rwa [List.getLast?_cons_cons] at htail
    rw [List.getLast?_map] at hlast
    obtain ⟨last, hplace, rfl⟩ := Option.map_eq_some_iff.mp hlast
    rw [Program.selects_natCast_iff fun _ => Operation.groupEnd_iff] at hend
    exact ⟨n, places, rfl, hbegin, .of_isChain hpaired hplace hend⟩

/-- A group of chained boundaries can be built from them. -/
theorem ChainedGroup.ofBoundaries_eq {program : Program} {group : BlockGroup}
    (h : ChainedGroup program group) :
    BlockGroup.ofBoundaries program group.boundaries = .ok group := by
  obtain ⟨head, rest, rfl, hhead, hchained⟩ := h
  obtain ⟨dividers, last, rfl, hlast, -⟩ := hchained.eq_concat
  exact ofBoundaries_eq_ok dividers hhead hlast

/-- The walk from the first boundary collects a list exactly if the list is a chain. -/
theorem chainedGroup_iff_collected {program : Program} {boundaries : List Int} :
    ChainedGroup program ⟨program, boundaries⟩ ↔
      (program.groupBoundaries (BlockGroup.mk program boundaries).head).map
        (List.map fun n : Nat => (n : Int)) = .ok boundaries := by
  constructor
  · exact groupBoundaries_of_chainedGroup
  · intro h
    obtain ⟨bs, hwalk, hbs⟩ := map_eq_ok_iff.mp h
    obtain ⟨n, hhead, -⟩ := Program.hasFacet_of_groupBoundaries hwalk
    rw [hhead] at hwalk
    exact chainedGroup_iff.mpr ⟨n, bs, hwalk, congrArg (BlockGroup.mk program) hbs.symm⟩

/-- The boundaries of a chain are in order and in the program. -/
theorem ChainedGroup.boundaries_sorted {program : Program} {group : BlockGroup}
    (h : ChainedGroup program group) : group.boundaries.Pairwise (· < ·) ∧
      ∀ idx ∈ group.boundaries, 0 ≤ idx ∧ idx < program.size := by
  obtain ⟨head, rest, rfl, hhead, hchained⟩ := h
  rw [boundaries_groupOf]
  refine ⟨List.pairwise_map.mpr (hchained.sorted.imp Int.ofNat_lt.mpr), fun idx hidx => ?_⟩
  obtain ⟨n, hn, rfl⟩ := List.mem_map.mp hidx
  obtain ⟨last, hlast, hwithin⟩ := hchained.within
  obtain ⟨dividers, tail, rfl, htail, -⟩ := hchained.eq_concat
  rw [← List.cons_append, List.getLast?_concat] at hlast
  cases hlast
  obtain ⟨hlt, -⟩ := List.getElem?_eq_some_iff.mp htail
  rw [Program.length_markers] at hlt
  have hle := (hwithin n hn).2
  omega

/-- **A list of boundaries is judged by its ends**, and a block by the two boundaries around it. A
block that can be built has these boundaries as its ends. All blocks of a group can be built exactly
if its boundaries are those that the walk collects, and these are in order and in the program. So it
is with every group that is found from its begin, around an instruction, or by the enumeration. -/
theorem ofBoundaries_iff_groupEnds (program : Program) (boundaries : List Int) :
    (∀ group, BlockGroup.ofBoundaries program boundaries = .ok group ↔
      program.GroupEnds boundaries ∧ group = ⟨program, boundaries⟩) ∧
    (∀ e, BlockGroup.ofBoundaries program boundaries = .error e → e.kind = .malformed ∨
      ∃ idx, (idx ∈ boundaries.head? ∨ idx ∈ boundaries.getLast?) ∧ program.at? idx = none) ∧
    (∀ group, BlockGroup.ofBoundaries program boundaries = .ok group →
      (∀ i < group.numBlocks, ∃ b e, boundaries[i]? = some b ∧ boundaries[i + 1]? = some e ∧
        ((∃ block, group.block i = .ok block) ↔
          (program.blockEnd b).map (fun n : Nat => (n : Int)) = .ok e) ∧
        (∀ block, group.block i = .ok block → (block.head : Int) = b ∧ (block.tail : Int) = e) ∧
        ∀ error, group.block i = .error error → error.kind ≠ .selection) ∧
      ((∀ i < group.numBlocks, ∃ block, group.block i = .ok block) ↔
        (program.groupBoundaries group.head).map (List.map fun n : Nat => (n : Int))
          = .ok boundaries) ∧
      ((∀ i < group.numBlocks, ∃ block, group.block i = .ok block) →
        boundaries.Pairwise (· < ·) ∧ ∀ idx ∈ boundaries, 0 ≤ idx ∧ idx < program.size)) ∧
    ∀ group : BlockGroup, group.boundaries = boundaries →
      ((∃ idx, BlockGroup.startingAt program idx = .ok group) ∨
        (∃ idx, BlockGroup.surrounding program idx = .ok group) ∨
        ∃ gs, program.groups = .ok gs ∧ group ∈ gs) →
      BlockGroup.ofBoundaries program boundaries = .ok group ∧
        ∀ i < group.numBlocks, ∃ block, group.block i = .ok block := by
  refine ⟨fun group => ofBoundaries_eq_ok_iff, ?_, ?_, ?_⟩
  · intro e he
    rcases ofBoundaries_cases program boundaries with ⟨-, hbuilt⟩ | ⟨-, e', hbuilt, hcause⟩
    · rw [hbuilt] at he
      cases he
    · rw [hbuilt] at he
      cases he
      exact hcause
  · intro group hgroup
    obtain ⟨hends, rfl⟩ := ofBoundaries_eq_ok_iff.mp hgroup
    refine ⟨fun i => block_between, ?_, fun hblocks => ?_⟩
    · rw [← chainedGroup_iff_blocks hends, chainedGroup_iff_collected]
    · exact ((chainedGroup_iff_blocks hends).mpr hblocks).boundaries_sorted
  · rintro group rfl hfound
    have hchained : ChainedGroup program group := by
      rcases hfound with ⟨idx, hgroup⟩ | ⟨idx, hgroup⟩ | ⟨gs, hgs, hmem⟩
      · exact chainedGroup_of_startingAt hgroup
      · exact chainedGroup_of_surrounding hgroup
      · exact chainedGroup_of_mem_groups hgs hmem
    have hbuilt := hchained.ofBoundaries_eq
    obtain ⟨hends, hgroup⟩ := ofBoundaries_eq_ok_iff.mp hbuilt
    rw [hgroup] at hchained
    exact ⟨hbuilt, hgroup ▸ (chainedGroup_iff_blocks hends).mp hchained⟩

/-- A branch behind an end of no group: its three boundaries make a group with both blocks. -/
theorem ofBoundaries_branch :
    let strays : Program := ⟨[⟨.ofEnd "EndIf", []⟩, ⟨.ofBegin "BeginIf", []⟩,
      ⟨.ofDivider "BeginElse", []⟩, ⟨.ofEnd "EndIf", []⟩]⟩
    ∃ group, BlockGroup.ofBoundaries strays [1, 2, 3] = .ok group ∧
      (∀ i < group.numBlocks, ∃ block, group.block i = .ok block) ∧
      [1, 2, 3].Pairwise (fun a b : Int => a < b) ∧
      BlockGroup.startingAt strays 1 = .ok group := by
  intro strays
  have hbuilt : BlockGroup.ofBoundaries strays [1, 2, 3] = .ok (groupOf strays [1, 2, 3]) := rfl
  have h := (ofBoundaries_iff_groupEnds strays [1, 2, 3]).2.2.1 _ hbuilt
  have hblocks := h.2.1.mpr rfl
  exact ⟨_, hbuilt, hblocks, (h.2.2 hblocks).1, rfl⟩

/-- **Boundaries are not checked**: the two ends of a branch alone make a group, and so does the
begin counted from the end of the program, but the walk collects other boundaries and no block can
be built. An end out of range is refused with an error of its own. -/
theorem ofBoundaries_unchecked :
    let branch : Program := ⟨[⟨.ofBegin "BeginIf", []⟩, ⟨.ofDivider "BeginElse", []⟩,
      ⟨.ofEnd "EndIf", []⟩]⟩
    (∃ group, BlockGroup.ofBoundaries branch [0, 2] = .ok group ∧
      branch.groupBoundaries 0 = .ok [0, 1, 2] ∧ ∃ e, group.block 0 = .error e) ∧
    (∃ group, BlockGroup.ofBoundaries branch [-3, 2] = .ok group ∧
      ∃ e, group.block 0 = .error e) ∧
    ∃ e, BlockGroup.ofBoundaries branch [0, 3] = .error e ∧ e.kind = .selection := by
  intro branch
  exact ⟨⟨groupOf branch [0, 2], rfl, rfl, _, rfl⟩, ⟨⟨branch, [-3, 2]⟩, rfl, _, rfl⟩, _, rfl, rfl⟩

end FlatCode
