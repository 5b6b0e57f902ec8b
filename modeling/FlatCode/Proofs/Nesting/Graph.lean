import Mathlib.Data.List.Nodup
import Mathlib.Data.List.Perm.Basic
import Mathlib.Logic.Relation
import FlatCode.Nesting.Graph
import FlatCode.Proofs.Nesting.Enclosing

/-!
# The nesting graph is a tree

The nodes of the nesting graph are added group by group, the edges to the groups in a second walk
over the program. In a well-formed program the two fit together: each node but the root has one edge
into it, that edge comes from a node of the graph, and along an edge the places of the nodes go up.
A graph of this kind is a tree (`NestingGraph.isTree_of_rises`).

* `HangsUnder` — the smallest block around a group, or the root
* `exists_groupEdges` — the edge to a group comes from the node that the group hangs under
* `Program.exists_nestingGraph` — the graph of a well-formed program, with all its nodes and edges
-/

namespace FlatCode

/-! ## Trees -/

namespace NestingGraph

/-- The identities of the nodes. -/
def ids (graph : NestingGraph) : List NodeId := graph.nodes.map Node.id

/-- Whether an edge leads from one node to another. -/
def Leads (graph : NestingGraph) (previous next : NodeId) : Prop := (previous, next) ∈ graph.edges

/-- Whether a graph is a tree under its root: its nodes and edges are distinct, edges are between
nodes, and each node is reached from the root, by its only edge from another node. -/
structure IsTree (graph : NestingGraph) : Prop where
  root_mem : NodeId.root ∈ graph.ids
  nodup_ids : graph.ids.Nodup
  nodup_edges : graph.edges.Nodup
  listed : ∀ previous next, graph.Leads previous next → previous ∈ graph.ids ∧ next ∈ graph.ids
  top : ∀ previous, ¬graph.Leads previous .root
  predecessor : ∀ id ∈ graph.ids, id ≠ .root → ∃! previous, graph.Leads previous id
  reachable : ∀ id ∈ graph.ids, Relation.ReflTransGen graph.Leads .root id

variable {graph : NestingGraph}

/-- The nodes of a tree are reached from the root: they are not if one has no predecessor. -/
theorem reachable_of_rises {rank : NodeId → Nat}
    (hrises : ∀ previous next, graph.Leads previous next → rank previous < rank next)
    (hlisted : ∀ previous next, graph.Leads previous next → previous ∈ graph.ids)
    (hpredecessor : ∀ id ∈ graph.ids, id ≠ .root → ∃ previous, graph.Leads previous id)
    {id : NodeId} (hid : id ∈ graph.ids) : Relation.ReflTransGen graph.Leads .root id := by
  induction hrank : rank id using Nat.strong_induction_on generalizing id with
  | _ n ih =>
    by_cases hroot : id = .root
    · rw [hroot]
    · obtain ⟨previous, hleads⟩ := hpredecessor id hid hroot
      have hlt := hrises previous id hleads
      exact (ih _ (by omega) (hlisted previous id hleads) rfl).tail hleads

/-- **A graph with one edge into each node but the root is a tree**, if something rises along its
edges. -/
theorem isTree_of_rises (rank : NodeId → Nat)
    (hperm : (NodeId.root :: graph.edges.map Prod.snd).Perm graph.ids) (hnodup : graph.ids.Nodup)
    (hlisted : ∀ previous next, graph.Leads previous next → previous ∈ graph.ids)
    (hrises : ∀ previous next, graph.Leads previous next → rank previous < rank next) :
    graph.IsTree := by
  obtain ⟨hroot, htargets⟩ := List.nodup_cons.mp (hperm.nodup_iff.mpr hnodup)
  have htarget : ∀ previous next, graph.Leads previous next →
      next ∈ graph.edges.map Prod.snd := by
    intro previous next hleads
    exact List.mem_map.mpr ⟨_, hleads, rfl⟩
  have hpredecessor : ∀ id ∈ graph.ids, id ≠ .root → ∃ previous, graph.Leads previous id := by
    intro id hid hne
    rcases List.mem_cons.mp (hperm.mem_iff.mpr hid) with heq | hmem
    · exact absurd heq hne
    · obtain ⟨⟨previous, next⟩, hedge, rfl⟩ := List.mem_map.mp hmem
      exact ⟨previous, hedge⟩
  refine ⟨hperm.mem_iff.mp List.mem_cons_self, hnodup, htargets.of_map, ?_, ?_, ?_, ?_⟩
  · intro previous next hleads
    exact ⟨hlisted previous next hleads,
      hperm.mem_iff.mp (List.mem_cons_of_mem _ (htarget previous next hleads))⟩
  · intro previous hleads
    exact hroot (htarget previous _ hleads)
  · intro id hid hne
    obtain ⟨previous, hleads⟩ := hpredecessor id hid hne
    refine ⟨previous, hleads, fun other hother => ?_⟩
    have hedge := List.inj_on_of_nodup_map htargets hother hleads rfl
    exact congrArg Prod.fst hedge
  · intro id hid
    exact reachable_of_rises hrises hlisted hpredecessor hid

end NestingGraph

/-! ## What groups hang under -/

/-- Whether a group hangs under a node: the smallest block with its head in the body, or the root if
there is none. -/
inductive HangsUnder (blocks : List Block) (head : Int) : NodeId → Prop where
  | block {block : Block} (h : IsInnermost blocks head block) :
      HangsUnder blocks head (Node.ofBlock block).id
  | root (h : ∀ block ∈ blocks, head ∉ block.body) : HangsUnder blocks head .root

section WellFormed

variable {program : Program} {lists : List (List Nat)} {groups : List BlockGroup}

theorem perm_allBlocks (hperm : groups.Perm (lists.map (groupOf program))) :
    (allBlocks groups).Perm (allBlocks (lists.map (groupOf program))) :=
  hperm.flatMap_right _

/-- A block is looked up by its head. -/
theorem find?_allBlocks (hlists : program.boundaryLists = .ok lists)
    (hperm : groups.Perm (lists.map (groupOf program))) {b e : Nat}
    (h : Paired program.markers b e) :
    (allBlocks groups).find? (fun block => block.head == b) = some ⟨program, b, e⟩ := by
  have hmem : ∀ block, block ∈ allBlocks groups ↔ block.program = program ∧
      Paired program.markers block.head block.tail := by
    intro block
    rw [(perm_allBlocks hperm).mem_iff, mem_allBlocks_iff hlists]
  cases hfind : (allBlocks groups).find? fun block => block.head == b with
  | none =>
    have hnone := List.find?_eq_none.mp hfind _ ((hmem ⟨program, b, e⟩).mpr ⟨rfl, h⟩)
    simp at hnone
  | some block =>
    obtain ⟨rfl, hpaired⟩ := (hmem block).mp (List.mem_of_find?_eq_some hfind)
    obtain rfl : block.head = b := by simpa using List.find?_some hfind
    rw [← hpaired.unique h]

/-- **The edge to a group comes from what the group hangs under.** -/
theorem exists_groupEdge (hlists : program.boundaryLists = .ok lists)
    (hperm : groups.Perm (lists.map (groupOf program))) {head : Nat} {around : Option Nat}
    (hhead : program.markers[head]? = some .groupBegin)
    (haround : EnclosedBy program.markers head around) :
    ∃ parent, Program.groupEdge (allBlocks groups) head around = .ok (parent, .group head) ∧
      HangsUnder (allBlocks (lists.map (groupOf program))) head parent := by
  cases around with
  | none => exact ⟨.root, rfl, .root (not_mem_body_of_balanced hlists haround)⟩
  | some b =>
    obtain ⟨e, hpaired, hinnermost⟩ := OpensAt.exists_innermost hlists hhead haround
    refine ⟨_, ?_, .block hinnermost⟩
    rw [Program.groupEdge, find?_allBlocks hlists hperm hpaired]
    rfl

/-- Each entry of the walk is for a group begin. -/
theorem begins_of_enclosingBlocks {enclosing : List (Nat × Option Nat)}
    (h : enclosing.map Prod.fst = placesOf Marker.beginsGroup 0 program.markers)
    {entry : Nat × Option Nat} (hentry : entry ∈ enclosing) :
    program.markers[entry.1]? = some .groupBegin := by
  rw [← mem_placesOf_beginsGroup, ← h]
  exact List.mem_map_of_mem hentry

/-- The edges to the groups, one to each. -/
theorem exists_groupEdges (hlists : program.boundaryLists = .ok lists)
    (hperm : groups.Perm (lists.map (groupOf program))) :
    ∃ enclosing groupEdges, program.enclosingBlocks = .ok enclosing ∧
      (enclosing.mapM fun (head, around) => Program.groupEdge (allBlocks groups) head around)
        = .ok groupEdges ∧
      groupEdges.map Prod.snd = (placesOf Marker.beginsGroup 0 program.markers).map
        (fun head : Nat => NodeId.group head) ∧
      ∀ edge ∈ groupEdges, ∃ head : Nat, edge.2 = .group head ∧
        HangsUnder (allBlocks (lists.map (groupOf program))) head edge.1 := by
  obtain ⟨enclosing, hwalk, hheads, haround⟩ :=
    Program.exists_enclosingBlocks (exists_boundaryLists_iff.mp ⟨_, hlists⟩)
  have hedge : ∀ entry ∈ enclosing, ∃ edge,
      Program.groupEdge (allBlocks groups) entry.1 entry.2 = .ok edge ∧
        edge.2 = NodeId.group entry.1 ∧ ∃ head : Nat, edge.2 = .group head ∧
          HangsUnder (allBlocks (lists.map (groupOf program))) head edge.1 := by
    intro entry hentry
    obtain ⟨parent, hedge, hhangs⟩ := exists_groupEdge hlists hperm
      (begins_of_enclosingBlocks hheads hentry) (haround entry hentry)
    exact ⟨_, hedge, rfl, entry.1, rfl, hhangs⟩
  obtain ⟨groupEdges, hedges, htargets, hhangs⟩ := exists_mapM_eq_ok hedge
  refine ⟨enclosing, groupEdges, hwalk, hedges, ?_, hhangs⟩
  rw [htargets, ← hheads, List.map_map]
  rfl

/-! ## The graph of a program -/

/-- The nodes of groups, each followed by the nodes of its blocks. -/
def groupNodes (groups : List BlockGroup) : List Node :=
  groups.flatMap fun group => Node.ofGroup group :: group.blockList.map Node.ofBlock

/-- The edges from groups to their blocks. -/
def blockEdges (groups : List BlockGroup) : List (NodeId × NodeId) :=
  groups.flatMap fun group => group.blockList.map fun block =>
    ((Node.ofGroup group).id, (Node.ofBlock block).id)

/-- **The nesting graph of a well-formed program is built**: no group is refused, no block is looked
up in vain, and no marker is met outside of a group. -/
theorem Program.exists_nestingGraph (hlists : program.boundaryLists = .ok lists) :
    ∃ groups groupEdges, groups.Perm (lists.map (groupOf program)) ∧
      program.nestingGraph = .ok ⟨.root :: groupNodes groups, blockEdges groups ++ groupEdges⟩ ∧
      groupEdges.map Prod.snd = (placesOf Marker.beginsGroup 0 program.markers).map
        (fun head : Nat => NodeId.group head) ∧
      ∀ edge ∈ groupEdges, ∃ head : Nat, edge.2 = .group head ∧
        HangsUnder (allBlocks (lists.map (groupOf program))) head edge.1 := by
  have hgroups : program.groupsByHead = .ok ((lists.map (groupOf program)).mergeSort
      fun a b => a.head ≤ b.head) := by
    rw [Program.groupsByHead, groups_of_boundaryLists hlists]
    rfl
  have hperm := List.mergeSort_perm (lists.map (groupOf program)) fun a b => a.head ≤ b.head
  obtain ⟨enclosing, groupEdges, hwalk, hedges, htargets, hhangs⟩ := exists_groupEdges hlists hperm
  refine ⟨_, groupEdges, hperm, ?_, htargets, hhangs⟩
  rw [Program.nestingGraph, hgroups]
  dsimp only
  rw [exists_groupsWithBlocks hlists hperm]
  dsimp only
  rw [hwalk]
  dsimp only
  rw [List.flatMap_map, ← allBlocks, hedges, groupNodes, blockEdges, List.flatMap_map,
    List.flatMap_map]
  rfl

theorem perm_map_id_groupNodes (groups : List BlockGroup) :
    ((groupNodes groups).map Node.id).Perm
      ((allBlocks groups).map (fun block => (Node.ofBlock block).id) ++
        groups.map fun group => (Node.ofGroup group).id) := by
  rw [groupNodes, allBlocks, List.map_flatMap, List.map_flatMap]
  refine List.Perm.trans (List.Perm.of_eq ?_)
    ((List.map_append_flatMap_perm groups _ _).symm.trans List.perm_append_comm)
  simp only [List.map_cons, List.map_map, Function.comp_def]

theorem map_snd_blockEdges (groups : List BlockGroup) :
    (blockEdges groups).map Prod.snd
      = (allBlocks groups).map fun block => (Node.ofBlock block).id := by
  rw [blockEdges, allBlocks, List.map_flatMap, List.map_flatMap]
  simp only [List.map_map, Function.comp_def]

/-- The groups begin at the group begins. -/
theorem perm_map_group (hlists : program.boundaryLists = .ok lists)
    (hperm : groups.Perm (lists.map (groupOf program))) :
    (groups.map fun group => (Node.ofGroup group).id).Perm
      ((placesOf Marker.beginsGroup 0 program.markers).map fun head : Nat => NodeId.group head) := by
  obtain ⟨t, ht, rfl⟩ := exists_items_of_boundaryLists hlists
  have hheads := (hperm.map BlockGroup.head).trans (perm_head_groupOf program t)
  have hids := hheads.map NodeId.group
  rw [List.map_map, List.map_map, ht] at hids
  exact hids

theorem nodup_map_id_allBlocks (hlists : program.boundaryLists = .ok lists)
    (hperm : groups.Perm (lists.map (groupOf program))) :
    ((allBlocks groups).map fun block => (Node.ofBlock block).id).Nodup := by
  have hheads := nodup_map_head_allBlocks hlists
  rw [← ((perm_allBlocks hperm).map Block.head).nodup_iff, List.Nodup, List.pairwise_map] at hheads
  rw [List.Nodup, List.pairwise_map]
  refine hheads.imp fun hne heq => hne ?_
  simp only [Node.ofBlock, Node.id, NodeId.block.injEq] at heq
  exact heq.1

/-- Each node but the root has one edge into it, and no two nodes have one identity. -/
theorem nodes_of_nestingGraph (hlists : program.boundaryLists = .ok lists)
    (hperm : groups.Perm (lists.map (groupOf program))) {groupEdges : List (NodeId × NodeId)}
    (htargets : groupEdges.map Prod.snd = (placesOf Marker.beginsGroup 0 program.markers).map
      fun head : Nat => NodeId.group head) :
    ((blockEdges groups ++ groupEdges).map Prod.snd).Perm ((groupNodes groups).map Node.id) ∧
      ((groupNodes groups).map Node.id).Nodup ∧ NodeId.root ∉ (groupNodes groups).map Node.id := by
  have hgroups := perm_map_group hlists hperm
  have hnodes := perm_map_id_groupNodes groups
  refine ⟨?_, ?_, ?_⟩
  · rw [List.map_append, map_snd_blockEdges, htargets]
    exact (hgroups.symm.append_left _).trans hnodes.symm
  · rw [hnodes.nodup_iff, List.nodup_append]
    refine ⟨nodup_map_id_allBlocks hlists hperm, ?_, ?_⟩
    · rw [hgroups.nodup_iff, List.Nodup, List.pairwise_map]
      refine (nodup_placesOf _ _ _).imp fun hne heq => hne ?_
      exact Int.ofNat.inj (NodeId.group.inj heq)
    · intro id hid other hother
      obtain ⟨block, -, rfl⟩ := List.mem_map.mp hid
      obtain ⟨group, -, rfl⟩ := List.mem_map.mp hother
      simp [Node.ofBlock, Node.ofGroup, Node.id]
  · rw [hnodes.mem_iff, List.mem_append, List.mem_map, List.mem_map]
    simp [Node.ofBlock, Node.ofGroup, Node.id]

/-- How far down a program a node begins: a group begins in front of its blocks. -/
def NodeId.place : NodeId → Nat
  | .root => 0
  | .group head => 2 * head.toNat + 1
  | .block head _ => 2 * head + 2

/-- **The nesting graph of a well-formed program is a tree.** -/
theorem isTree_nestingGraph (hlists : program.boundaryLists = .ok lists)
    (hperm : groups.Perm (lists.map (groupOf program))) {groupEdges : List (NodeId × NodeId)}
    (htargets : groupEdges.map Prod.snd = (placesOf Marker.beginsGroup 0 program.markers).map
      fun head : Nat => NodeId.group head)
    (hhangs : ∀ edge ∈ groupEdges, ∃ head : Nat, edge.2 = .group head ∧
      HangsUnder (allBlocks (lists.map (groupOf program))) head edge.1) :
    (NestingGraph.mk (.root :: groupNodes groups) (blockEdges groups ++ groupEdges)).IsTree := by
  obtain ⟨hids, hnodup, hroot⟩ := nodes_of_nestingGraph hlists hperm htargets
  have hedge : ∀ edge ∈ blockEdges groups ++ groupEdges,
      edge.1 ∈ NodeId.root :: (groupNodes groups).map Node.id ∧ edge.1.place < edge.2.place := by
    intro edge hmem
    rw [List.mem_cons, (perm_map_id_groupNodes groups).mem_iff]
    rcases List.mem_append.mp hmem with hmem | hmem
    · obtain ⟨group, hgroup, hmem⟩ := List.mem_flatMap.mp hmem
      obtain ⟨block, hblock, rfl⟩ := List.mem_map.mp hmem
      obtain ⟨bs, hbs, rfl⟩ := List.mem_map.mp (hperm.mem_iff.mp hgroup)
      obtain ⟨head, tail, hlisted⟩ := listed_of_mem hlists hbs
      obtain ⟨-, hhead, -⟩ := (mem_blockList_iff hlisted).mp hblock
      have hle := (hlisted.within _ hhead).1
      refine ⟨.inr (List.mem_append_right _ (List.mem_map_of_mem hgroup)), ?_⟩
      simp only [Node.ofGroup, Node.ofBlock, Node.id, NodeId.place, hlisted.head_groupOf]
      omega
    · obtain ⟨head, htarget, hhangs⟩ := hhangs edge hmem
      obtain ⟨source, target⟩ := edge
      cases htarget
      cases hhangs with
      | root => exact ⟨.inl rfl, Nat.succ_pos _⟩
      | @block block hinnermost =>
        have hblock := (perm_allBlocks hperm).mem_iff.mpr hinnermost.mem
        obtain ⟨hlt, -⟩ := mem_body.mp hinnermost.around
        refine ⟨.inr (List.mem_append_left _ (List.mem_map.mpr ⟨block, hblock, rfl⟩)), ?_⟩
        change 2 * block.head + 2 < 2 * (head : Int).toNat + 1
        omega
  exact NestingGraph.isTree_of_rises NodeId.place (hids.cons _)
    (List.nodup_cons.mpr ⟨hroot, hnodup⟩) (fun _ _ hleads => (hedge _ hleads).1)
    fun _ _ hleads => (hedge _ hleads).2

end WellFormed

end FlatCode
