import Mathlib.Order.Bounds.Basic
import FlatCode.Proofs.Block.Detection
import FlatCode.Proofs.Nesting.Distance
import FlatCode.Proofs.Nesting.Parents

/-!
# Three notions of depth

How deep a program is nested is told by the depths of its instructions, by the number of groups that
are around a group, and by the distances from the root of the nesting graph. All are read off the
coverage: at the begin of a group it is one more than the depth, it is the number of times the
nesting is looked up, and twice the coverage of a block is its distance from the root.

* `rankedBy_coverage` — the distance from the root is twice the coverage
* `exists_max_coverage` — the highest coverage is that of a group begin
* `groupNesting_eq_depths` — depths, nesting and graph agree
-/

namespace FlatCode

section WellFormed

variable {program : Program} {lists : List (List Nat)} {groups : List BlockGroup}
  {own : List Nat} {head tail : Nat}

/-! ## Ranks -/

/-- The distance of a node from the root: each group around a block adds a group and a block. -/
def rankOf (program : Program) (lists : List (List Nat)) : NodeId → Nat
  | .root => 0
  | .group head => 2 * coverage program lists head - 1
  | .block head _ => 2 * coverage program lists head

theorem IsInnermost.unique {blocks : List Block} {idx : Int} {block block' : Block}
    (h : IsInnermost blocks idx block) (h' : IsInnermost blocks idx block') : block = block' := by
  by_contra hne
  have hlt := h.smallest block' h'.mem h'.around fun heq => hne heq.symm
  have hlt' := h'.smallest block h.mem h.around hne
  omega

/-- At each group begin a block is open, or none is. -/
theorem Program.exists_enclosedBy (h : program.isWellFormed = true)
    (hhead : program.markers[head]? = some .groupBegin) :
    ∃ around, EnclosedBy program.markers head around := by
  obtain ⟨enclosing, -, hheads, haround⟩ := Program.exists_enclosingBlocks h
  have hmem : head ∈ enclosing.map Prod.fst := by
    rw [hheads]
    exact mem_placesOf_beginsGroup.mpr hhead
  obtain ⟨entry, hentry, rfl⟩ := List.mem_map.mp hmem
  exact ⟨entry.2, haround entry hentry⟩

/-- A group is one step below what it hangs under. -/
theorem HangsUnder.rankOf_eq (hlists : program.boundaryLists = .ok lists) {parent : NodeId}
    (hhead : program.markers[head]? = some .groupBegin)
    (h : HangsUnder (allBlocks (lists.map (groupOf program))) head parent) :
    rankOf program lists (.group head) = rankOf program lists parent + 1 := by
  obtain ⟨own, hown, tail, hlisted⟩ := exists_listed_of_begin hlists hhead
  obtain ⟨around, haround⟩ :=
    Program.exists_enclosedBy (exists_boundaryLists_iff.mp ⟨_, hlists⟩) hhead
  cases around with
  | none =>
    have hnone := not_mem_body_of_balanced hlists haround
    have hcoverage := coverage_of_balanced hlists hown hlisted haround
    cases h with
    | root => simp [rankOf, hcoverage]
    | block hinnermost => exact absurd hinnermost.around (hnone _ hinnermost.mem)
  | some b =>
    obtain ⟨e, -, hopen⟩ := OpensAt.exists_innermost hlists hhead haround
    have hcoverage := coverage_of_opensAt hlists hown hlisted haround
    cases h with
    | root hnone => exact absurd hopen.around (hnone _ hopen.mem)
    | block hinnermost =>
      obtain rfl := hinnermost.unique hopen
      simp only [rankOf, Node.ofBlock, Node.id, hcoverage]
      omega

/-- **The distance from the root is twice the coverage.** -/
theorem rankedBy_coverage (hlists : program.boundaryLists = .ok lists)
    (hperm : groups.Perm (lists.map (groupOf program))) {groupEdges : List (NodeId × NodeId)}
    (htargets : groupEdges.map Prod.snd = (placesOf Marker.beginsGroup 0 program.markers).map
      fun head : Nat => NodeId.group head)
    (hhangs : ∀ edge ∈ groupEdges, ∃ head : Nat, edge.2 = .group head ∧
      HangsUnder (allBlocks (lists.map (groupOf program))) head edge.1) :
    (NestingGraph.mk (.root :: groupNodes groups) (blockEdges groups ++ groupEdges)).RankedBy
      (rankOf program lists) := by
  refine ⟨isTree_nestingGraph hlists hperm htargets hhangs, rfl, fun previous next hleads => ?_⟩
  rcases List.mem_append.mp hleads with hedge | hedge
  · obtain ⟨group, hgroup, hedge⟩ := List.mem_flatMap.mp hedge
    obtain ⟨block, hblock, heq⟩ := List.mem_map.mp hedge
    obtain ⟨rfl, rfl⟩ := Prod.mk.inj heq
    obtain ⟨bs, hbs, rfl⟩ := List.mem_map.mp (hperm.mem_iff.mp hgroup)
    obtain ⟨head, tail, hlisted⟩ := listed_of_mem hlists hbs
    obtain ⟨-, hmem, -⟩ := (mem_blockList_iff hlisted).mp hblock
    have hblock := hlisted.coverage_eq hlists hbs hmem
    have hhead := coverage_eq_depth hlists hbs hlisted
    simp only [Node.ofGroup, Node.ofBlock, Node.id, rankOf, hlisted.head_groupOf, hblock, hhead]
    omega
  · obtain ⟨head, rfl, hparent⟩ := hhangs _ hedge
    have hmem : NodeId.group head ∈ groupEdges.map Prod.snd := List.mem_map.mpr ⟨_, hedge, rfl⟩
    rw [htargets] at hmem
    obtain ⟨head', hplace, heq⟩ := List.mem_map.mp hmem
    obtain rfl : head' = head := Int.ofNat.inj (NodeId.group.inj heq)
    exact hparent.rankOf_eq hlists (mem_placesOf_beginsGroup.mp hplace)

/-! ## The deepest group -/

/-- **The highest coverage is that of a group begin**, if there is a group. -/
theorem exists_max_coverage (hlists : program.boundaryLists = .ok lists) :
    ∃ m, (∀ idx, coverage program lists idx ≤ m) ∧
      ((lists = [] ∧ m = 0) ∨ ∃ bs ∈ lists, ∃ head tail, Listed program bs head tail ∧
        coverage program lists head = m) := by
  cases hmax : lists.argmax fun bs => coverage program lists (bs.head?.getD 0) with
  | none =>
    obtain rfl := List.argmax_eq_none.mp hmax
    exact ⟨0, fun idx => Nat.le_refl 0, .inl ⟨rfl, rfl⟩⟩
  | some bs =>
    have hbs := List.argmax_mem hmax
    obtain ⟨head, tail, hlisted⟩ := listed_of_mem hlists hbs
    refine ⟨coverage program lists head, fun idx => ?_, .inr ⟨bs, hbs, head, tail, hlisted, rfl⟩⟩
    rcases exists_coverage_le hlists idx with hzero | ⟨bs', hbs', head', tail', hlisted', hle⟩
    · omega
    · have hle' := List.le_of_mem_argmax hbs' hmax
      rw [hlisted.begins, hlisted'.begins] at hle'
      exact Nat.le_trans hle hle'

/-- **The farthest node of the nesting graph is at twice the highest coverage.** -/
theorem Program.maxGroupDepthBy_eq {search : NestingGraph → NodeId → List (NodeId × Nat)}
    (hsearch : NestingGraph.FindsDistances search) (hlists : program.boundaryLists = .ok lists)
    {m : Nat} (hbound : ∀ idx, coverage program lists idx ≤ m)
    (hm : (lists = [] ∧ m = 0) ∨ ∃ bs ∈ lists, ∃ head tail, Listed program bs head tail ∧
      coverage program lists head = m) : program.maxGroupDepthBy search = .ok m := by
  obtain ⟨groups, groupEdges, hperm, hgraph, htargets, hhangs⟩ :=
    Program.exists_nestingGraph hlists
  have hranked := rankedBy_coverage hlists hperm htargets hhangs
  have hfarthest := hranked.farthest (m := 2 * m) hsearch (fun id hid => ?_) ?_
  · rw [Program.maxGroupDepthBy, hgraph]
    dsimp only [Except.map]
    rw [hfarthest, Option.getD_some]
    congr 1
    omega
  · cases id with
    | root => exact Nat.zero_le _
    | group head =>
      have hle := hbound head
      simp only [rankOf]
      omega
    | block head tail =>
      have hle := hbound head
      simp only [rankOf]
      omega
  · rcases hm with ⟨rfl, rfl⟩ | ⟨bs, hbs, head, tail, hlisted, rfl⟩
    · exact ⟨.root, List.mem_cons_self, rfl⟩
    · have hbalanced :=
        Program.isWellFormed_iff_balanced.mp (exists_boundaryLists_iff.mp ⟨_, hlists⟩)
      obtain ⟨e, hpaired⟩ := exists_paired_of_opens hbalanced ⟨_, hlisted.begin_marker, rfl⟩
      have hblock : (⟨program, head, e⟩ : Block) ∈ allBlocks groups := by
        rw [(perm_allBlocks hperm).mem_iff]
        exact (mem_allBlocks_iff hlists).mpr ⟨rfl, hpaired⟩
      refine ⟨.block head e, List.mem_cons_of_mem _ ?_, rfl⟩
      rw [(perm_map_id_groupNodes groups).mem_iff]
      exact List.mem_append_left _ (List.mem_map.mpr ⟨_, hblock, rfl⟩)

end WellFormed

/-! ## Depths, nesting and graph -/

/-- The number of groups with an index in their range. -/
theorem countP_range_groupOf (program : Program) (lists : List (List Nat)) (idx : Int) :
    ((lists.map (groupOf program)).countP fun group => idx ∈ group.range)
      = coverage program lists idx := by
  rw [List.countP_map]
  rfl

/-- **Depths, nesting and graph agree on how deep a well-formed program is nested.** The nesting has
one entry for each group begin, in ascending order, with the smallest other group around it; going up
from a group ends after one step more than its depth. The deepest group is one level deeper than the
highest depth of a group begin, which is the largest number of groups around one index, whichever
search finds the distances in the graph. -/
theorem groupNesting_eq_depths {search : NestingGraph → NodeId → List (NodeId × Nat)}
    (hsearch : NestingGraph.FindsDistances search) (program : Program)
    (h : program.isWellFormed = true) :
    ∃ gs depths nesting m, program.groups = .ok gs ∧ program.depths = .ok depths ∧
      program.groupNesting = .ok nesting ∧ program.maxGroupDepthBy search = .ok m ∧
      (nesting.map Prod.fst).Pairwise (· < ·) ∧
      (∀ n : Nat, n ∈ nesting.map Prod.fst ↔ program.HasFacet n .groupBegin) ∧
      (∀ entry ∈ nesting, SmallestAround gs entry.1 entry.2 ∧
        ∃ depth, depths[entry.1]? = some depth ∧ Climbs nesting entry.1 (depth + 1)) ∧
      (gs = [] → m = 0) ∧
      (gs ≠ [] → IsGreatest {k | ∃ head depth : Nat, program.HasFacet head .groupBegin ∧
        depths[head]? = some depth ∧ k = depth + 1} m) ∧
      IsGreatest (Set.range fun idx : Int => gs.countP fun group => idx ∈ group.range) m := by
  obtain ⟨lists, hlists⟩ := exists_boundaryLists_iff.mpr h
  obtain ⟨depths, hdepths, hlength, hcount⟩ := depths_eq_countP hlists
  obtain ⟨nesting, hnesting, hheads, hparents⟩ := Program.exists_groupNesting hlists
  obtain ⟨m, hbound, hm⟩ := exists_max_coverage hlists
  -- at a group begin the depth is one less than the coverage
  have hdepth : ∀ {own : List Nat} {head tail : Nat}, own ∈ lists → Listed program own head tail →
      ∃ depth, depths[head]? = some depth ∧ coverage program lists head = depth + 1 := by
    intro own head tail hown hlisted
    have hlt : head < depths.length := by
      rw [hlength]
      exact hlisted.lt_size hlisted.head_mem
    have hget := List.getElem?_eq_getElem hlt
    refine ⟨_, hget, ?_⟩
    rw [coverage_eq_depth hlists hown hlisted, hcount head _ hget]
  refine ⟨_, depths, nesting, m, groups_of_boundaryLists hlists, hdepths, hnesting,
    Program.maxGroupDepthBy_eq hsearch hlists hbound hm, ?_, fun n => ?_, fun entry hentry => ?_,
    ?_, ?_, ?_⟩
  · rw [hheads]
    exact pairwise_placesOf _ _ _
  · rw [hheads, mem_placesOf_beginsGroup, Program.hasFacet_groupBegin]
  · have hhead : program.markers[entry.1]? = some .groupBegin := by
      rw [← mem_placesOf_beginsGroup, ← hheads]
      exact List.mem_map_of_mem hentry
    obtain ⟨own, hown, tail, hlisted⟩ := exists_listed_of_begin hlists hhead
    obtain ⟨depth, hget, hcoverage⟩ := hdepth hown hlisted
    have hclimbs := climbs_coverage hlists hheads hparents hhead
    rw [hcoverage] at hclimbs
    exact ⟨(hparents entry hentry).smallestAround hlists hown hlisted, depth, hget, hclimbs⟩
  · intro hempty
    obtain rfl := List.map_eq_nil_iff.mp hempty
    rcases hm with ⟨-, rfl⟩ | ⟨bs, hbs, -⟩
    · rfl
    · cases hbs
  · intro hne
    constructor
    · rcases hm with ⟨rfl, -⟩ | ⟨bs, hbs, head, tail, hlisted, rfl⟩
      · exact absurd rfl hne
      · obtain ⟨depth, hget, hcoverage⟩ := hdepth hbs hlisted
        exact ⟨head, depth, hlisted.hasFacet, hget, hcoverage⟩
    · rintro k ⟨head, depth, hfacet, hget, rfl⟩
      obtain ⟨own, hown, tail, hlisted⟩ :=
        exists_listed_of_begin hlists (Program.hasFacet_groupBegin.mp hfacet)
      obtain ⟨depth', hget', hcoverage⟩ := hdepth hown hlisted
      obtain rfl := Option.some.inj (hget.symm.trans hget')
      rw [← hcoverage]
      exact hbound head
  · simp only [countP_range_groupOf]
    constructor
    · rcases hm with ⟨rfl, rfl⟩ | ⟨bs, hbs, head, tail, hlisted, rfl⟩
      · exact ⟨0, rfl⟩
      · exact ⟨head, rfl⟩
    · rintro k ⟨idx, rfl⟩
      exact hbound idx

/-- A branch in a loop: from the branch the nesting is looked up twice. -/
theorem groupNesting_eq_depths_loop :
    let loop : Program := ⟨[⟨.ofBegin "BeginWhileLoop", []⟩, ⟨.ofBegin "BeginIf", []⟩,
      ⟨.ofDivider "BeginElse", []⟩, ⟨.ofEnd "EndIf", []⟩, ⟨.ofEnd "EndWhileLoop", []⟩]⟩
    loop.isWellFormed = true ∧ ∃ nesting, loop.groupNesting = .ok nesting ∧
      nesting = [(0, none), (1, some 0)] ∧ Climbs nesting 1 2 ∧ loop.maxGroupDepth = .ok 2 := by
  intro loop
  have hwell : loop.isWellFormed = true := by decide
  obtain ⟨gs, depths, nesting, m, hgs, hdepths, hnesting, hm, -, -, hentries, -, hmost, -⟩ :=
    groupNesting_eq_depths NestingGraph.findsDistances_distances loop hwell
  have hgroups : loop.groups = .ok [groupOf loop [1, 2, 3], groupOf loop [0, 4]] := rfl
  have hlevels : loop.depths = .ok [0, 1, 1, 1, 0] := rfl
  have hparents : loop.groupNesting = .ok [(0, none), (1, some 0)] := rfl
  rw [hgroups] at hgs
  rw [hlevels] at hdepths
  rw [hparents] at hnesting
  cases hgs
  cases hdepths
  cases hnesting
  obtain ⟨-, depth, hdepth, hclimbs⟩ := hentries (1, some 0) (by simp)
  cases hdepth
  obtain ⟨⟨head, depth, -, hdepth, rfl⟩, hbound⟩ := hmost (by simp)
  have hle : 2 ≤ depth + 1 := hbound ⟨1, 1, ⟨1, rfl, _, rfl, rfl⟩, rfl, rfl⟩
  have hge : depth ≤ 1 := by
    have hmem := List.mem_of_getElem? hdepth
    simp only [List.mem_cons, List.not_mem_nil, or_false] at hmem
    omega
  obtain rfl : depth = 1 := by omega
  exact ⟨hwell, _, hparents, rfl, hclimbs, hm⟩

end FlatCode
