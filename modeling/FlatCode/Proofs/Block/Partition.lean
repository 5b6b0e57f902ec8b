import FlatCode.Proofs.Block.Depths
import FlatCode.Proofs.Results

/-!
# How groups lie to each other

The walk over a group looks at nothing outside of it, so any two groups whose walks end can be
compared, also in a program that is malformed elsewhere: they are apart, or one is inside one block
of the other (`Listed.insideBlock`). Each group is cut by its boundaries into the bodies of its
blocks. In a well-formed program the groups cover the markers, and the instructions that stand in a
block.

* `Listed.insideBlock` — a group that begins in the range of another one is inside one of its blocks
* `perm_upTo_of_chained` — boundaries and bodies make up the range
* `exists_mem_range_iff_depth` — what the groups of a well-formed program cover
* `groups_partition` — how the groups of a program lie
-/

namespace FlatCode

/-! ## Boundaries in a row -/

section Chained

variable {ms : List Marker} {b n last : Nat} {rest : List Nat}

/-- The boundaries of a group are listed in their order. -/
theorem Chained.sorted (h : Chained ms b rest) : (b :: rest).Pairwise (· < ·) := by
  induction h with
  | @last b e hpaired hend =>
    have hlt := (paired_iff.mp hpaired).1
    exact List.pairwise_pair.mpr hlt
  | @next b e rest hpaired hdivider hrest ih =>
    have hlt := (paired_iff.mp hpaired).1
    refine List.pairwise_cons.mpr ⟨fun m hm => ?_, ih⟩
    obtain ⟨last, -, hwithin⟩ := hrest.within
    have hle := (hwithin m hm).1
    omega

/-- **A place in a group that is no boundary is between two boundaries that follow each other.** -/
theorem Chained.exists_between (h : Chained ms b rest) (hlast : (b :: rest).getLast? = some last)
    (hbn : b < n) (hnl : n < last) (hn : n ∉ rest) :
    ∃ i c d, (b :: rest)[i]? = some c ∧ (b :: rest)[i + 1]? = some d ∧ c < n ∧ n < d := by
  induction h with
  | @last b e hpaired hend =>
    cases hlast
    exact ⟨0, b, e, rfl, rfl, hbn, hnl⟩
  | @next b e rest hpaired hdivider hrest ih =>
    rw [List.mem_cons, not_or] at hn
    by_cases hne : n < e
    · exact ⟨0, b, e, rfl, rfl, hbn, hne⟩
    · rw [List.getLast?_cons_cons] at hlast
      obtain ⟨i, c, d, hc, hd, hcn, hnd⟩ := ih hlast (by omega) hn.2
      exact ⟨i + 1, c, d, hc, hd, hcn, hnd⟩

end Chained

/-! ## Groups inside of blocks -/

/-- Whether the range of a group is in the body of one block of another group. -/
def BlockGroup.InsideBlock (inner outer : BlockGroup) : Prop :=
  ∃ (i : Nat) (block : Block), i < outer.numBlocks ∧ outer.block i = .ok block ∧
    inner.range ⊆ block.body

section Listed

variable {program : Program} {as bs : List Nat} {a b s t : Nat}

theorem Listed.spans (h : Listed program bs b t) : Spans program.markers b t := by
  obtain ⟨head, tail, hhead, htail, hspans⟩ := h.chainedGroup.exists_spans
  rw [h.head_groupOf] at hhead
  rw [h.tail_groupOf] at htail
  obtain rfl := Int.ofNat.inj hhead
  obtain rfl := Int.ofNat.inj htail
  exact hspans

/-- The begin of a group is no boundary of another one. -/
theorem Listed.eq_of_begin_mem (h : Listed program as a s)
    (hbegin : program.markers[b]? = some .groupBegin) (hb : b ∈ as) : b = a := by
  obtain ⟨rest, rfl, hchained⟩ := h.exists_chained
  obtain ⟨dividers, last, rfl, hlast, hdividers⟩ := hchained.eq_concat
  rcases List.mem_cons.mp hb with heq | hb
  · exact heq
  · rcases List.mem_append.mp hb with hdivider | hb
    · rw [hdividers b hdivider] at hbegin
      cases hbegin
    · rw [List.mem_singleton.mp hb, hlast] at hbegin
      cases hbegin

theorem numBlocks_groupOf (program : Program) (b : Nat) (rest : List Nat) :
    (groupOf program (b :: rest)).numBlocks = rest.length := by
  rw [BlockGroup.numBlocks, boundaries_groupOf, List.length_map, List.length_cons,
    Nat.add_sub_cancel]

/-- The block between two boundaries of a group that follow each other. -/
theorem block_groupOf (h : ChainedGroup program (groupOf program bs)) {i c d : Nat}
    (hc : bs[i]? = some c) (hd : bs[i + 1]? = some d) :
    i < (groupOf program bs).numBlocks ∧ (groupOf program bs).block i = .ok ⟨program, c, d⟩ := by
  obtain ⟨hlt, -⟩ := List.getElem?_eq_some_iff.mp hd
  have hi : i < (groupOf program bs).numBlocks := by
    rw [BlockGroup.numBlocks, boundaries_groupOf, List.length_map]
    omega
  obtain ⟨c', d', hc', hd', hblock⟩ := block_of_chainedGroup h hi
  rw [boundaries_groupOf, List.getElem?_map, hc] at hc'
  rw [boundaries_groupOf, List.getElem?_map, hd] at hd'
  obtain rfl := Int.ofNat.inj (Option.some.inj hc')
  obtain rfl := Int.ofNat.inj (Option.some.inj hd')
  exact ⟨hi, hblock⟩

/-- **A group that begins in the range of another one is inside one of its blocks**, and crosses no
boundary. -/
theorem Listed.insideBlock (h : Listed program as a s) (h' : Listed program bs b t) (hab : a < b)
    (hbs : b ≤ s) : (groupOf program bs).InsideBlock (groupOf program as) := by
  have hbegin := h'.begin_marker
  have hnotin : b ∉ as := fun hmem => Nat.ne_of_gt hab (h.eq_of_begin_mem hbegin hmem)
  have hne : b ≠ s := fun heq => hnotin (heq ▸ h.tail_mem)
  obtain ⟨rest, rfl, hchained⟩ := h.exists_chained
  rw [List.mem_cons, not_or] at hnotin
  obtain ⟨i, c, d, hc, hd, hcb, hbd⟩ := hchained.exists_between h.ends hab (by omega) hnotin.2
  -- the block between these two boundaries has the whole group in it
  obtain ⟨hi, hd'⟩ := List.getElem?_eq_some_iff.mp hd
  have hpaired : Paired program.markers c d := by
    have hchain := hchained.paired.getElem i hi
    obtain ⟨hi', hc'⟩ := List.getElem?_eq_some_iff.mp hc
    rwa [hc', hd'] at hchain
  obtain ⟨e, hspans, hed⟩ := hpaired.nested hcb hbd hbegin
  obtain rfl := h'.spans.unique hspans
  obtain ⟨hnum, hblock⟩ := block_groupOf h.chainedGroup hc hd
  refine ⟨i, _, hnum, hblock, fun idx hidx => ?_⟩
  rw [h'.mem_range] at hidx
  rw [Block.body, mem_upTo]
  dsimp only
  omega

end Listed

/-! ## Boundaries and bodies -/

/-- The blocks between places that follow each other. -/
def blocksBetween (program : Program) : Nat → List Nat → List Block
  | _, [] => []
  | b, e :: rest => ⟨program, b, e⟩ :: blocksBetween program e rest

theorem length_blocksBetween (program : Program) (b : Nat) (rest : List Nat) :
    (blocksBetween program b rest).length = rest.length := by
  induction rest generalizing b with
  | nil => rfl
  | cons e rest ih => rw [blocksBetween, List.length_cons, List.length_cons, ih]

theorem getElem?_blocksBetween {p : Program} {b i c d : Nat} {rest : List Nat}
    (hc : (b :: rest)[i]? = some c) (hd : (b :: rest)[i + 1]? = some d) :
    (blocksBetween p b rest)[i]? = some ⟨p, c, d⟩ := by
  induction rest generalizing b i with
  | nil => cases hd
  | cons e rest ih =>
    cases i with
    | zero =>
      cases hc
      cases hd
      rfl
    | succ i => exact ih hc hd

/-- The blocks of a group are those between its boundaries. -/
theorem blocks_groupOf {program : Program} {b : Nat} {rest : List Nat}
    (h : ChainedGroup program (groupOf program (b :: rest))) :
    (groupOf program (b :: rest)).blocks = .ok (blocksBetween program b rest) := by
  rw [BlockGroup.blocks]
  refine mapM_eq_ok (List.forall₂_iff_get.mpr ⟨?_, fun i hi hi' => ?_⟩)
  · rw [List.length_range, numBlocks_groupOf, length_blocksBetween]
  · rw [length_blocksBetween] at hi'
    have hb : i < (b :: rest).length := by
      rw [List.length_cons]
      omega
    have he : i + 1 < (b :: rest).length := Nat.succ_lt_succ hi'
    have hc : (b :: rest)[i]? = some _ := List.getElem?_eq_getElem hb
    have hd : (b :: rest)[i + 1]? = some _ := List.getElem?_eq_getElem he
    obtain ⟨-, hblock⟩ := block_groupOf h hc hd
    obtain ⟨hlt, hbetween⟩ := List.getElem?_eq_some_iff.mp
      (getElem?_blocksBetween (p := program) hc hd)
    rw [List.get_eq_getElem, List.get_eq_getElem, List.getElem_range]
    exact hblock.trans (congrArg Except.ok hbetween.symm)

theorem upTo_cons {start stop : Int} (h : start < stop) :
    upTo start stop = start :: upTo (start + 1) stop := by
  have hsize : (stop - start).toNat = (stop - (start + 1)).toNat + 1 := by omega
  rw [upTo, upTo, hsize, List.range_succ_eq_map, List.map_cons, List.map_map]
  refine congrArg₂ List.cons (by omega) (List.map_congr_left fun n _ => ?_)
  dsimp only [Function.comp]
  omega

theorem upTo_append {start middle stop : Int} (hle : start ≤ middle) (hle' : middle ≤ stop) :
    upTo start middle ++ upTo middle stop = upTo start stop := by
  have hsize : (stop - start).toNat = (middle - start).toNat + (stop - middle).toNat := by omega
  rw [upTo, upTo, upTo, hsize, List.range_add, List.map_append, List.map_map]
  refine congrArg _ (List.map_congr_left fun n _ => ?_)
  dsimp only [Function.comp]
  omega

theorem nodup_upTo (start stop : Int) : (upTo start stop).Nodup :=
  List.pairwise_map.mpr (List.nodup_range.imp fun hne heq =>
    hne (Int.ofNat.inj (Int.add_left_cancel heq)))

/-- Behind a boundary come the body of its block and the next boundary. -/
theorem upTo_eq_body_append (program : Program) {b e : Nat} {stop : Int} (hbe : b < e)
    (hstop : (e : Int) ≤ stop) :
    upTo b stop = (b : Int) :: ((Block.mk program b e).body ++ upTo e stop) := by
  rw [upTo_cons (by omega), Block.body]
  dsimp only
  rw [upTo_append (by omega) hstop]

/-- **Boundaries and bodies make up the range.** -/
theorem perm_upTo_of_chained (program : Program) {ms : List Marker} {b last : Nat}
    {rest : List Nat} (h : Chained ms b rest) (hlast : (b :: rest).getLast? = some last) :
    (((b :: rest).map fun n : Nat => (n : Int)) ++
      (blocksBetween program b rest).flatMap Block.body).Perm (upTo b (last + 1)) := by
  induction h with
  | @last b e hpaired hend =>
    obtain rfl : e = last := Option.some.inj hlast
    have hlt := (paired_iff.mp hpaired).1
    have hsingle : upTo e (e + 1) = [(e : Int)] := by
      rw [upTo_cons (by omega), upTo, Int.sub_self]
      rfl
    rw [upTo_eq_body_append program hlt (by omega), hsingle, blocksBetween, blocksBetween,
      List.flatMap_singleton]
    have hswap : ([(e : Int)] ++ (Block.mk program b e).body).Perm
        ((Block.mk program b e).body ++ [(e : Int)]) := List.perm_append_comm
    exact hswap.cons _
  | @next b e rest hpaired hdivider hrest ih =>
    have hlt := (paired_iff.mp hpaired).1
    rw [List.getLast?_cons_cons] at hlast
    obtain ⟨last', hlast', hwithin⟩ := hrest.within
    rw [hlast'] at hlast
    obtain rfl := Option.some.inj hlast
    have hle := (hwithin e List.mem_cons_self).2
    rw [upTo_eq_body_append program hlt (by omega), blocksBetween, List.flatMap_cons, List.map_cons,
      List.cons_append]
    -- the body of the first block is moved in front of the other boundaries
    refine List.Perm.cons _ ?_
    rw [← List.append_assoc]
    refine (List.perm_append_comm.append_right _).trans ?_
    rw [List.append_assoc]
    exact (ih hlast').append_left _

/-! ## Places in groups -/

/-- A group is made up of its boundaries and the bodies of its blocks. -/
theorem Listed.exists_blocks {program : Program} {bs : List Nat} {head tail : Nat}
    (h : Listed program bs head tail) :
    ∃ blocks, (groupOf program bs).blocks = .ok blocks ∧
      ((groupOf program bs).boundaries ++ blocks.flatMap Block.body).Perm
        (groupOf program bs).range := by
  obtain ⟨rest, rfl, hchained⟩ := h.exists_chained
  refine ⟨blocksBetween program head rest, blocks_groupOf h.chainedGroup, ?_⟩
  rw [BlockGroup.range, h.head_groupOf, h.tail_groupOf]
  exact perm_upTo_of_chained program hchained h.ends

theorem Program.exists_marks_iff {program : Program} {n : Nat} :
    (∃ m, program.markers[n]? = some m ∧ m.marks = true) ↔
      program.HasFacet n .blockBegin ∨ program.HasFacet n .blockEnd := by
  rw [hasFacet_blockBegin, hasFacet_blockEnd, ← exists_or]
  refine exists_congr fun m => ?_
  rw [Marker.marks, Bool.or_eq_true, and_or_left]

/-- **A place is in a group if it is a boundary of one, or a group is around it.** -/
theorem exists_mem_range_iff {program : Program} {lists : List (List Nat)}
    (h : program.boundaryLists = .ok lists) (n : Nat) :
    (∃ bs ∈ lists, (n : Int) ∈ (groupOf program bs).range) ↔
      (∃ bs ∈ lists, n ∈ bs) ∨ 0 < lists.countP (Surrounds n) := by
  rw [List.countP_pos_iff]
  constructor
  · rintro ⟨bs, hbs, hn⟩
    obtain ⟨head, tail, hlisted⟩ := listed_of_mem h hbs
    rw [hlisted.mem_range, Int.ofNat_le, Int.ofNat_le] at hn
    by_cases hmem : n ∈ bs
    · exact .inl ⟨bs, hbs, hmem⟩
    · have hhead : head ≠ n := fun heq => hmem (heq ▸ hlisted.head_mem)
      have htail : tail ≠ n := fun heq => hmem (heq ▸ hlisted.tail_mem)
      exact .inr ⟨bs, hbs, (surrounds_iff hlisted.begins hlisted.ends).mpr
        ⟨by omega, by omega, hmem⟩⟩
  · rintro (⟨bs, hbs, hn⟩ | ⟨bs, hbs, hn⟩)
    · obtain ⟨head, tail, hlisted⟩ := listed_of_mem h hbs
      have hwithin := hlisted.within n hn
      exact ⟨bs, hbs, hlisted.mem_range program |>.mpr (by omega)⟩
    · obtain ⟨head, tail, hlisted⟩ := listed_of_mem h hbs
      obtain ⟨hlt, hlt', -⟩ := (surrounds_iff hlisted.begins hlisted.ends).mp hn
      exact ⟨bs, hbs, hlisted.mem_range program |>.mpr (by omega)⟩

/-- A place has a depth of at least one if a group is around it. -/
theorem exists_depth_iff {program : Program} {lists : List (List Nat)} {depths : List Nat}
    (h : program.boundaryLists = .ok lists) (hlength : depths.length = program.size)
    (hcount : ∀ (n depth : Nat), depths[n]? = some depth → depth = lists.countP (Surrounds n))
    (n : Nat) :
    (∃ depth, depths[n]? = some depth ∧ 1 ≤ depth) ↔ 0 < lists.countP (Surrounds n) := by
  constructor
  · rintro ⟨depth, hget, hpos⟩
    exact hcount n depth hget ▸ hpos
  · intro hpos
    -- the group that is around ends in the program, so the place has a depth
    obtain ⟨bs, hbs, hsurrounds⟩ := List.countP_pos_iff.mp hpos
    obtain ⟨head, tail, hlisted⟩ := listed_of_mem h hbs
    obtain ⟨-, hlt, -⟩ := (surrounds_iff hlisted.begins hlisted.ends).mp hsurrounds
    have hn : n < depths.length := by
      rw [hlength]
      exact Nat.lt_trans hlt (hlisted.lt_size hlisted.tail_mem)
    have hget := List.getElem?_eq_getElem hn
    exact ⟨_, hget, hcount n _ hget ▸ hpos⟩

theorem exists_mem_boundaries_iff {program : Program} {lists : List (List Nat)}
    (h : program.boundaryLists = .ok lists) (n : Nat) :
    (∃ bs ∈ lists, n ∈ bs) ↔ program.HasFacet n .blockBegin ∨ program.HasFacet n .blockEnd := by
  rw [← Program.exists_marks_iff]
  constructor
  · rintro ⟨bs, hbs, hn⟩
    obtain ⟨head, tail, hlisted⟩ := listed_of_mem h hbs
    exact hlisted.marks hn
  · rintro ⟨m, hm, hmarks⟩
    exact exists_mem_boundaries h hm hmarks

/-- **The groups of a well-formed program cover its markers and the places that have a depth.** -/
theorem exists_mem_range_iff_depth {program : Program} (h : program.isWellFormed = true) :
    ∃ groups depths, program.groups = .ok groups ∧ program.depths = .ok depths ∧
      depths.length = program.size ∧ ∀ idx : Int, (∃ group ∈ groups, idx ∈ group.range) ↔
        ∃ n : Nat, idx = n ∧ ((program.HasFacet n .blockBegin ∨ program.HasFacet n .blockEnd) ∨
          ∃ depth, depths[n]? = some depth ∧ 1 ≤ depth) := by
  obtain ⟨lists, hlists⟩ := exists_boundaryLists_iff.mpr h
  obtain ⟨depths, hdepths, hlength, hcount⟩ := depths_eq_countP hlists
  refine ⟨_, depths, groups_of_boundaryLists hlists, hdepths, hlength, fun idx => ?_⟩
  constructor
  · rintro ⟨group, hgroup, hidx⟩
    obtain ⟨bs, hbs, rfl⟩ := List.mem_map.mp hgroup
    obtain ⟨head, tail, hlisted⟩ := listed_of_mem hlists hbs
    obtain ⟨n, rfl⟩ := Int.eq_ofNat_of_zero_le
      (Int.le_trans (Int.natCast_nonneg head) ((hlisted.mem_range program).mp hidx).1)
    refine ⟨n, rfl, ?_⟩
    rw [← exists_mem_boundaries_iff hlists, exists_depth_iff hlists hlength hcount]
    exact (exists_mem_range_iff hlists n).mp ⟨bs, hbs, hidx⟩
  · rintro ⟨n, rfl, hn⟩
    rw [← exists_mem_boundaries_iff hlists, exists_depth_iff hlists hlength hcount] at hn
    obtain ⟨bs, hbs, hidx⟩ := (exists_mem_range_iff hlists n).mpr hn
    exact ⟨_, List.mem_map_of_mem hbs, hidx⟩

/-! ## The groups of a program -/

/-- Two groups, of which one begins in front of the other, are apart or inside of each other. -/
theorem Listed.disjoint_or_insideBlock {program : Program} {as bs : List Nat} {a b s t : Nat}
    (h : Listed program as a s) (h' : Listed program bs b t) (hab : a < b) :
    (groupOf program as).range.Disjoint (groupOf program bs).range ∨
      (groupOf program bs).InsideBlock (groupOf program as) := by
  by_cases hbs : b ≤ s
  · exact .inr (h.insideBlock h' hab hbs)
  · refine .inl fun idx hidx hidx' => ?_
    rw [h.mem_range] at hidx
    rw [h'.mem_range] at hidx'
    omega

/-- **The groups of a program are apart or inside of each other, and each is cut into the bodies of
its blocks**, also where the program is malformed: a group that begins in another one is inside one
of its blocks, and crosses no boundary. The boundaries of a group rise, and with the bodies of the
blocks they list each index of its range once. In a well-formed program the groups cover the markers
and the instructions that stand in a block, and nothing else. -/
theorem groups_partition (program : Program) :
    (∀ (a b : Int) (as bs : List Nat), a ≠ b →
      program.groupBoundaries a = .ok as → program.groupBoundaries b = .ok bs →
      (groupOf program as).range.Disjoint (groupOf program bs).range ∨
        (groupOf program as).InsideBlock (groupOf program bs) ∨
        (groupOf program bs).InsideBlock (groupOf program as)) ∧
    (∀ (a : Int) (as : List Nat), program.groupBoundaries a = .ok as →
      BlockGroup.startingAt program a = .ok (groupOf program as) ∧
      (groupOf program as).head = a ∧ as.Pairwise (· < ·) ∧
      (groupOf program as).range.Nodup ∧
      ∃ blocks, (groupOf program as).blocks = .ok blocks ∧
        ((groupOf program as).boundaries ++ blocks.flatMap Block.body).Perm
          (groupOf program as).range) ∧
    (program.isWellFormed = true → ∃ groups depths,
      program.groups = .ok groups ∧ program.depths = .ok depths ∧
      depths.length = program.size ∧ ∀ idx : Int, (∃ group ∈ groups, idx ∈ group.range) ↔
        ∃ n : Nat, idx = n ∧ ((program.HasFacet n .blockBegin ∨ program.HasFacet n .blockEnd) ∨
          ∃ depth, depths[n]? = some depth ∧ 1 ≤ depth)) := by
  refine ⟨?_, ?_, exists_mem_range_iff_depth⟩
  · intro a b as bs hne ha hb
    obtain ⟨a, s, rfl, hlisted⟩ := exists_listed ha
    obtain ⟨b, t, rfl, hlisted'⟩ := exists_listed hb
    rcases Nat.lt_or_gt_of_ne fun heq : a = b => hne (congrArg Nat.cast heq) with hlt | hlt
    · exact (hlisted.disjoint_or_insideBlock hlisted' hlt).imp_right .inr
    · refine (hlisted'.disjoint_or_insideBlock hlisted hlt).imp ?_ .inl
      intro hdisjoint idx hidx hidx'
      exact hdisjoint hidx' hidx
  · intro a as ha
    obtain ⟨a, s, rfl, hlisted⟩ := exists_listed ha
    obtain ⟨rest, rfl, hchained⟩ := hlisted.exists_chained
    exact ⟨startingAt_of_groupBoundaries ha, hlisted.head_groupOf program, hchained.sorted,
      nodup_upTo _ _, hlisted.exists_blocks⟩

/-- A branch in a loop, with and without an end of no group in front. -/
theorem groups_partition_loop :
    let loop : List Instruction := [⟨.ofBegin "BeginWhileLoop", []⟩, ⟨.ofBegin "BeginIf", []⟩,
      ⟨.ofDivider "BeginElse", []⟩, ⟨.ofEnd "EndIf", []⟩, ⟨.ofEnd "EndWhileLoop", []⟩]
    let stray : Program := ⟨⟨.ofEnd "EndIf", []⟩ :: loop⟩
    stray.isWellFormed = false ∧
      ((groupOf stray [1, 5]).InsideBlock (groupOf stray [2, 3, 4]) ∨
        (groupOf stray [2, 3, 4]).InsideBlock (groupOf stray [1, 5])) ∧
      (∃ blocks, (groupOf stray [2, 3, 4]).blocks = .ok blocks ∧
        ([2, 3, 4] ++ blocks.flatMap Block.body).Perm [2, 3, 4]) ∧
      ∃ groups, (Program.mk loop).groups = .ok groups ∧
        ∀ idx : Int, (∃ group ∈ groups, idx ∈ group.range) → 0 ≤ idx := by
  intro loop stray
  have h := groups_partition stray
  have houter : stray.groupBoundaries 1 = .ok [1, 5] := rfl
  have hinner : stray.groupBoundaries 2 = .ok [2, 3, 4] := rfl
  have hboth : (2 : Int) ∈ (groupOf stray [1, 5]).range ∧
      (2 : Int) ∈ (groupOf stray [2, 3, 4]).range := by decide
  refine ⟨by decide, ?_, (h.2.1 2 _ hinner).2.2.2.2, ?_⟩
  · exact (h.1 1 2 _ _ (by decide) houter hinner).resolve_left fun hdisjoint =>
      hdisjoint hboth.1 hboth.2
  · obtain ⟨groups, depths, hgroups, -, -, hcover⟩ :=
      (groups_partition ⟨loop⟩).2.2 (by decide)
    refine ⟨groups, hgroups, fun idx hidx => ?_⟩
    obtain ⟨n, rfl, -⟩ := (hcover idx).mp hidx
    exact Int.natCast_nonneg n

end FlatCode
