import FlatCode.Proofs.Nesting.DotText
import FlatCode.Proofs.Nesting.Graph

/-!
# The nesting graph as DOT text

In DOT text a node goes by its name, and a name is made from the text of the node's identity by
putting underscores for colons and dashes. The names of places stay distinct: what is left of a text
tells the kind of the node, and the digits of a place have no underscore. So nodes and edges of a
tree are each stated once in the text, the edges by the nodes they start from.

* `NodeId.dotName_injective` — different nodes have different names
* `NestingGraph.IsTree.perm_edgesByNode` — the edges that are written are those of the graph
* `perm_statements` — the text states the nodes and edges of the graph, and nothing else
* `nestingGraph_isTree` — the nesting graph of a well-formed program
-/

namespace FlatCode

/-! ## Names -/

/-- A character of a name: colons and dashes have a meaning in DOT. -/
def nameChar (c : Char) : Char := if c = ':' ∨ c = '-' then '_' else c

/-- Whether the node of an identity stands at places of a program, which are not negative. -/
def NodeId.AtPlace : NodeId → Prop
  | .group head => 0 ≤ head
  | .root | .block .. => True

theorem toList_toString_nat (n : Nat) : (toString n).toList = Nat.toDigits 10 n := by simp

theorem isDigit_of_mem_digits {n : Nat} {c : Char} (h : c ∈ Nat.toDigits 10 n) :
    c.isDigit = true :=
  Nat.isDigit_of_mem_toDigits (by decide) (by decide) h

theorem map_nameChar_toDigits (n : Nat) :
    (Nat.toDigits 10 n).map nameChar = Nat.toDigits 10 n := by
  refine (List.map_congr_left fun c hc => ?_).trans (List.map_id _)
  have hdigit := isDigit_of_mem_digits hc
  refine if_neg ?_
  rintro (rfl | rfl)
  · cases hdigit
  · cases hdigit

theorem not_mem_toDigits {n : Nat} : '_' ∉ Nat.toDigits 10 n := by
  intro h
  cases isDigit_of_mem_digits h

theorem toDigits_injective {m n : Nat} (h : Nat.toDigits 10 m = Nat.toDigits 10 n) : m = n := by
  have hnumber := congrArg (fun digits => Nat.ofDigitChars 10 digits 0) h
  simpa using hnumber

namespace NodeId

variable {id id' : NodeId}

theorem dotName_group (head : Nat) : (NodeId.group head).dotName = "group_" ++ toString head := rfl

theorem dotName_block (head tail : Nat) :
    (NodeId.block head tail).dotName = "block_" ++ toString head ++ "_" ++ toString tail := rfl

theorem toList_dotName_group (head : Nat) :
    (NodeId.group head).dotName.toList = "group_".toList ++ Nat.toDigits 10 head := by
  rw [dotName_group, String.toList_append, toList_toString_nat]

theorem toList_dotName_block (head tail : Nat) :
    (NodeId.block head tail).dotName.toList
      = "block_".toList ++ (Nat.toDigits 10 head ++ '_' :: Nat.toDigits 10 tail) := by
  simp only [dotName_block, String.toList_append, toList_toString_nat, List.append_assoc]
  rfl

/-- **A name is the text of the identity, with underscores for colons and dashes.** -/
theorem toList_dotName (h : id.AtPlace) : id.dotName.toList = id.text.toList.map nameChar := by
  cases id with
  | root => rfl
  | group head =>
    obtain ⟨n, rfl⟩ := Int.eq_ofNat_of_zero_le h
    have htext : (NodeId.group n).text = "group:" ++ toString n := rfl
    rw [toList_dotName_group, htext, String.toList_append, toList_toString_nat, List.map_append,
      map_nameChar_toDigits]
    rfl
  | block head tail =>
    have htext : (NodeId.block head tail).text
        = "block:" ++ toString head ++ "-" ++ toString tail := rfl
    simp only [toList_dotName_block, htext, String.toList_append, toList_toString_nat,
      List.map_append, map_nameChar_toDigits, List.append_assoc]
    rfl

/-- **Different nodes have different names.** -/
theorem dotName_injective (h : id.AtPlace) (h' : id'.AtPlace) (heq : id.dotName = id'.dotName) :
    id = id' := by
  have hlist := congrArg String.toList heq
  cases id with
  | root =>
    cases id' with
    | root => rfl
    | group head =>
      obtain ⟨n, rfl⟩ := Int.eq_ofNat_of_zero_le h'
      rw [toList_dotName_group] at hlist
      cases hlist
    | block head tail =>
      rw [toList_dotName_block] at hlist
      cases hlist
  | group head =>
    obtain ⟨n, rfl⟩ := Int.eq_ofNat_of_zero_le h
    rw [toList_dotName_group] at hlist
    cases id' with
    | root => cases hlist
    | group head =>
      obtain ⟨n', rfl⟩ := Int.eq_ofNat_of_zero_le h'
      rw [toList_dotName_group] at hlist
      rw [toDigits_injective (List.append_cancel_left hlist)]
    | block head tail =>
      rw [toList_dotName_block] at hlist
      cases hlist
  | block head tail =>
    rw [toList_dotName_block] at hlist
    cases id' with
    | root => cases hlist
    | group head' =>
      obtain ⟨n, rfl⟩ := Int.eq_ofNat_of_zero_le h'
      rw [toList_dotName_group] at hlist
      cases hlist
    | block head' tail' =>
      rw [toList_dotName_block] at hlist
      -- the underscore between the places is the first one
      obtain ⟨hhead, -, htail⟩ := (List.append_cons_inj_of_notMem
        not_mem_toDigits not_mem_toDigits).mp (List.append_cancel_left hlist)
      rw [toDigits_injective hhead, toDigits_injective htail]

end NodeId

/-! ## Names and values in the text -/

/-- A word with an underscore that starts with no digit is a name: DOT keeps no such word for
itself. -/
theorem isDotName_of_underscore {s : Text} (hfirst : startsDotName s = true)
    (hall : ∀ c ∈ s, isDotNameChar c = true) (hunderscore : .char '_' ∈ s) :
    isDotName s = true := by
  have hkeyword : dotKeywords.contains (s.map smallLetter) = false := by
    refine Bool.eq_false_iff.mpr fun hcontains => ?_
    have hmem := List.contains_iff_mem.mp hcontains
    have hplain : ∀ keyword ∈ dotKeywords, .char '_' ∉ keyword := by decide
    exact hplain _ hmem (List.mem_map.mpr ⟨.char '_', hunderscore, rfl⟩)
  rw [isDotName, hkeyword, hfirst, List.all_eq_true.mpr hall]
  rfl

theorem isDotNameChar_of_mem_digits {n : Nat} {c : CodePoint}
    (h : c ∈ Text.ofChars (Nat.toDigits 10 n)) : isDotNameChar c = true := by
  obtain ⟨c, hc, rfl⟩ := Text.mem_ofChars.mp h
  simp [isDotNameChar, Char.isAlphanum, isDigit_of_mem_digits hc]

theorem NodeId.isDotName_dotName {id : NodeId} (h : id.AtPlace) : isDotName id.dotName = true := by
  cases id with
  | root => decide
  | group head =>
    obtain ⟨n, rfl⟩ := Int.eq_ofNat_of_zero_le h
    have hname : Text.ofString (group n).dotName
        = Text.ofString "group_" ++ Text.ofChars (Nat.toDigits 10 n) := by
      rw [Text.ofString, toList_dotName_group, Text.ofChars_append, Text.ofString]
    rw [hname]
    refine isDotName_of_underscore rfl ?_ (List.mem_append_left _ (by decide))
    exact List.forall_mem_append.mpr ⟨List.all_eq_true.mp (by decide),
      fun c hc => isDotNameChar_of_mem_digits hc⟩
  | block head tail =>
    have hname : Text.ofString (block head tail).dotName
        = Text.ofString "block_" ++ (Text.ofChars (Nat.toDigits 10 head) ++
          .char '_' :: Text.ofChars (Nat.toDigits 10 tail)) := by
      rw [Text.ofString, toList_dotName_block, Text.ofChars_append, Text.ofChars_append,
        Text.ofChars_cons, Text.ofString]
    rw [hname]
    refine isDotName_of_underscore rfl ?_ (List.mem_append_left _ (by decide))
    exact List.forall_mem_append.mpr ⟨List.all_eq_true.mp (by decide), List.forall_mem_append.mpr
      ⟨fun c hc => isDotNameChar_of_mem_digits hc, List.forall_mem_cons.mpr ⟨by decide,
        fun c hc => isDotNameChar_of_mem_digits hc⟩⟩⟩

theorem getLast?_range (name : Text) (head tail : String) :
    (name ++ Text.ofString (" [" ++ head ++ ".." ++ tail ++ "]")).getLast? = some (.char ']') := by
  have hlist : Text.ofString (" [" ++ head ++ ".." ++ tail ++ "]")
      = Text.ofChars (" [" ++ head ++ ".." ++ tail).toList ++ [.char ']'] := by
    rw [Text.ofString, String.toList_append, Text.ofChars_append]
    rfl
  rw [hlist, ← List.append_assoc]
  exact List.getLast?_concat

/-- A label is the name of the root, or ends with the range of a group or block. -/
theorem Node.getLast?_label (node : Node) :
    node.label.getLast? = some (.char 'm') ∨ node.label.getLast? = some (.char ']') := by
  cases node with
  | root => exact .inl rfl
  | group head tail num name => exact .inr (getLast?_range name (toString head) (toString tail))
  | block head tail body name => exact .inr (getLast?_range name (toString head) (toString tail))

namespace DotGraph

theorem plainAttribute_label (node : Node) : PlainAttribute ("label", node.label) := by
  have hname : isDotName "label" = true := by decide
  have hlast := node.getLast?_label
  refine ⟨hname, fun hquote => ?_, fun hbracket => ?_⟩
  · simp [hquote] at hlast
  · simp [hbracket] at hlast

/-- The attributes that nodes have besides their label. -/
def nodeStyles : List (Text × Text) :=
  [("style", "filled"), ("color", "#34495e"), ("fontname", "Helvetica"), ("shape", "doublecircle"),
    ("shape", "box"), ("fillcolor", "#ECEFF1"), ("fillcolor", "#FFE082"), ("fillcolor", "#C5E1A5")]

theorem plainAttribute_ofNode (node : Node) :
    ∀ entry ∈ (DotNode.ofNode node).attributes, PlainAttribute entry := by
  refine List.forall_mem_cons.mpr ⟨plainAttribute_label node, fun entry hentry => ?_⟩
  have hsubset : ∀ entry ∈ (DotNode.ofNode node).attributes.tail, entry ∈ nodeStyles := by
    cases node with
    | root | group | block => simp [DotNode.ofNode, Node.shape, Node.fill, nodeStyles]
  have hstyle : ∀ entry ∈ nodeStyles, isDotName entry.1 = true ∧
      entry.2.getLast? ≠ some (.char '"') ∧ entry.2.getLast? ≠ some (.char '>') := by decide
  obtain ⟨hname, hquote, hbracket⟩ := hstyle entry (hsubset entry hentry)
  exact ⟨hname, hquote, hbracket⟩

theorem plainAttribute_ofEdge (edge : NodeId × NodeId) :
    ∀ entry ∈ (DotEdge.ofEdge edge).attributes, PlainAttribute entry :=
  List.forall_mem_singleton.mpr ⟨by decide, by decide, by decide⟩

/-- The nesting graph is drawn with plain names and attributes. -/
theorem plain_ofNesting {graph : NestingGraph} (hplaces : ∀ id ∈ graph.ids, id.AtPlace)
    (hlisted : ∀ edge ∈ graph.edgesByNode, edge.1 ∈ graph.ids ∧ edge.2 ∈ graph.ids) :
    (ofNesting graph).Plain := by
  have hname : isDotName "fuzzblocks_nesting" = true := by decide
  refine ⟨hname, fun node hnode => ?_, fun edge hedge => ?_, fun entry hentry => ?_⟩
  · obtain ⟨origin, horigin, rfl⟩ := List.mem_map.mp hnode
    exact NodeId.isDotName_dotName (hplaces _ (List.mem_map_of_mem horigin))
  · obtain ⟨origin, horigin, rfl⟩ := List.mem_map.mp hedge
    obtain ⟨hsource, htarget⟩ := hlisted origin horigin
    exact ⟨NodeId.isDotName_dotName (hplaces _ hsource),
      NodeId.isDotName_dotName (hplaces _ htarget)⟩
  · simp only [allAttributes, List.mem_append, List.mem_flatMap] at hentry
    rcases hentry with (hentry | ⟨node, hnode, hentry⟩) | ⟨edge, hedge, hentry⟩
    · have hstyle : ∀ entry ∈ (ofNesting graph).attributes, PlainAttribute entry :=
        List.forall_mem_cons.mpr ⟨⟨by decide, by decide, by decide⟩,
          List.forall_mem_singleton.mpr ⟨by decide, by decide, by decide⟩⟩
      exact hstyle entry hentry
    · obtain ⟨node, -, rfl⟩ := List.mem_map.mp hnode
      exact plainAttribute_ofNode node entry hentry
    · obtain ⟨edge, -, rfl⟩ := List.mem_map.mp hedge
      exact plainAttribute_ofEdge edge entry hentry

end DotGraph

/-! ## The edges by node -/

namespace NestingGraph

variable {graph : NestingGraph}

theorem map_successors (graph : NestingGraph) (id : NodeId) :
    (graph.successors id).map (fun next => (id, next))
      = graph.edges.filter fun edge => edge.1 == id := by
  rw [successors, List.map_map]
  refine (List.map_congr_left fun edge hedge => ?_).trans (List.map_id _)
  obtain ⟨-, hsource⟩ := List.mem_filter.mp hedge
  rw [Function.comp_apply, ← beq_iff_eq.mp hsource]
  rfl

theorem perm_flatMap_filter (edges : List (NodeId × NodeId)) {ids : List NodeId} (h : ids.Nodup) :
    (ids.flatMap fun id => edges.filter fun edge => edge.1 == id).Perm
      (edges.filter fun edge => edge.1 ∈ ids) := by
  induction ids with
  | nil => simp
  | cons id ids ih =>
    obtain ⟨hid, hids⟩ := List.nodup_cons.mp h
    have hsplit := List.filter_append_perm (fun edge : NodeId × NodeId => edge.1 == id)
      (edges.filter fun edge => edge.1 ∈ id :: ids)
    rw [List.filter_filter, List.filter_filter] at hsplit
    rw [List.flatMap_cons]
    refine ((ih hids).append_left _).trans (List.Perm.trans (List.Perm.of_eq ?_) hsplit)
    congr 1
    · refine List.filter_congr fun edge _ => ?_
      by_cases heq : edge.1 = id <;> simp [heq]
    · refine List.filter_congr fun edge _ => ?_
      by_cases heq : edge.1 = id
      · simp [heq, hid]
      · simp [heq]

/-- **The edges of a tree are each listed once with the node they start from.** -/
theorem IsTree.perm_edgesByNode (h : graph.IsTree) : graph.edgesByNode.Perm graph.edges := by
  have hids : graph.edgesByNode
      = graph.ids.flatMap fun id => graph.edges.filter fun edge => edge.1 == id := by
    rw [edgesByNode, ids, List.flatMap_map]
    exact List.flatMap_congr fun node _ => map_successors graph node.id
  have hall : graph.edges.filter (fun edge => edge.1 ∈ graph.ids) = graph.edges := by
    refine List.filter_eq_self.mpr fun edge hedge => ?_
    exact decide_eq_true (h.listed edge.1 edge.2 hedge).1
  have hperm := perm_flatMap_filter graph.edges h.nodup_ids
  rw [hall] at hperm
  rw [hids]
  exact hperm

end NestingGraph

/-! ## The graph in the text -/

/-- What DOT text is to state about the nesting graph: its nodes and its edges, by name. -/
def NestingGraph.statements (graph : NestingGraph) : List DotStatement :=
  graph.ids.map (fun id => .node id.dotName)
    ++ graph.edges.map fun edge => .edge edge.1.dotName edge.2.dotName

/-- **What is written states the nodes and the edges of a tree.** -/
theorem perm_statements {write : DotGraph → Text} (hwrite : WritesDot write)
    {graph : NestingGraph} (h : graph.IsTree) (hplaces : ∀ id ∈ graph.ids, id.AtPlace) :
    (dotStatements (write (DotGraph.ofNesting graph))).Perm graph.statements := by
  have hlisted : ∀ edge ∈ graph.edgesByNode, edge.1 ∈ graph.ids ∧ edge.2 ∈ graph.ids :=
    fun edge hedge => h.listed _ _ (h.perm_edgesByNode.mem_iff.mp hedge)
  refine (hwrite _ (DotGraph.plain_ofNesting hplaces hlisted)).trans ?_
  rw [DotGraph.statements, NestingGraph.statements, NestingGraph.ids, DotGraph.ofNesting,
    List.map_map, List.map_map, List.map_map]
  exact (h.perm_edgesByNode.map _).append_left _

/-- No two nodes and no two edges of a tree are stated alike. -/
theorem NestingGraph.IsTree.nodup_statements {graph : NestingGraph} (h : graph.IsTree)
    (hplaces : ∀ id ∈ graph.ids, id.AtPlace) : graph.statements.Nodup := by
  have hname : ∀ id ∈ graph.ids, ∀ id' ∈ graph.ids,
      Text.ofString id.dotName = id'.dotName → id = id' := fun id hid id' hid' heq =>
    NodeId.dotName_injective (hplaces id hid) (hplaces id' hid') (Text.ofString_inj.mp heq)
  refine List.nodup_append.mpr ⟨?_, ?_, ?_⟩
  · exact h.nodup_ids.map_on fun id hid id' hid' heq =>
      hname id hid id' hid' (DotStatement.node.inj heq)
  · refine h.nodup_edges.map_on fun edge hedge edge' hedge' heq => ?_
    obtain ⟨hsource, htarget⟩ := h.listed _ _ hedge
    obtain ⟨hsource', htarget'⟩ := h.listed _ _ hedge'
    obtain ⟨hfirst, hsecond⟩ := DotStatement.edge.inj heq
    exact Prod.ext (hname _ hsource _ hsource' hfirst) (hname _ htarget _ htarget' hsecond)
  · intro statement hnode other hedge heq
    obtain ⟨id, -, rfl⟩ := List.mem_map.mp hnode
    obtain ⟨edge, -, rfl⟩ := List.mem_map.mp hedge
    cases heq

/-! ## The graph of a well-formed program -/

/-- The groups of a program begin at places of it. -/
theorem atPlace_of_mem {program : Program} {lists : List (List Nat)} {groups : List BlockGroup}
    (hlists : program.boundaryLists = .ok lists)
    (hperm : groups.Perm (lists.map (groupOf program))) {id : NodeId}
    (h : id ∈ NodeId.root :: (groupNodes groups).map Node.id) : id.AtPlace := by
  rw [List.mem_cons, (perm_map_id_groupNodes groups).mem_iff, List.mem_append,
    (perm_map_group hlists hperm).mem_iff] at h
  rcases h with rfl | h | h
  · exact trivial
  · obtain ⟨block, -, rfl⟩ := List.mem_map.mp h
    exact trivial
  · obtain ⟨head, -, rfl⟩ := List.mem_map.mp h
    exact Int.natCast_nonneg head

/-- **The nesting graph of a well-formed program is a tree that mirrors its block structure.** It is
always built. Its nodes are the root, one node for each group and one for each block; the only edge
into a block comes from its group, and the only one into a group from the smallest block with the
head of the group in its body, or from the root. Nodes stay distinct under their names in DOT text:
the text that is written has one line for each node and one for each edge of the graph, and no other
line states a node or an edge. -/
theorem nestingGraph_isTree {write : DotGraph → Text} (hwrite : WritesDot write)
    (program : Program) (h : program.isWellFormed = true) :
    ∃ gs owned graph text, program.groups = .ok gs ∧ Program.groupsWithBlocks gs = .ok owned ∧
      owned.map Prod.fst = gs ∧ program.nestingGraph = .ok graph ∧ graph.IsTree ∧
      graph.nodes.Perm (.root :: owned.flatMap fun (group, blocks) =>
        Node.ofGroup group :: blocks.map Node.ofBlock) ∧
      (∀ entry ∈ owned, ∀ block ∈ entry.2,
        graph.Leads (Node.ofGroup entry.1).id (Node.ofBlock block).id) ∧
      (∀ group ∈ gs, ∃ parent, HangsUnder (owned.flatMap Prod.snd) group.head parent ∧
        graph.Leads parent (Node.ofGroup group).id) ∧
      (∀ id ∈ graph.ids, id.dotName.toList = id.text.toList.map nameChar) ∧
      (graph.ids.map NodeId.dotName).Nodup ∧ (graph.ids.map NodeId.text).Nodup ∧
      program.dotBy write = .ok text ∧ (dotStatements text).Perm graph.statements ∧
      (dotStatements text).Nodup := by
  obtain ⟨lists, hlists⟩ := exists_boundaryLists_iff.mpr h
  obtain ⟨groups, groupEdges, hperm, hgraph, htargets, hhangs⟩ :=
    Program.exists_nestingGraph hlists
  have htree := isTree_nestingGraph hlists hperm htargets hhangs
  have hplaces := fun id => @atPlace_of_mem program lists groups hlists hperm id
  have hnames := htree.nodup_ids.map_on fun id hid id' hid' heq =>
    NodeId.dotName_injective (hplaces id hid) (hplaces id' hid') heq
  have hstatements := perm_statements hwrite htree hplaces
  refine ⟨_, _, _, _, groups_of_boundaryLists hlists,
    exists_groupsWithBlocks hlists (List.Perm.refl _), ?_, hgraph, htree, ?_, ?_, ?_, ?_, hnames, ?_,
    ?_, hstatements, ?_⟩
  · rw [List.map_map]
    exact List.map_id _
  · rw [List.flatMap_map]
    exact (hperm.flatMap_right _).cons _
  · intro entry hentry block hblock
    obtain ⟨group, hgroup, rfl⟩ := List.mem_map.mp hentry
    exact List.mem_append_left _ (List.mem_flatMap.mpr
      ⟨group, hperm.mem_iff.mpr hgroup, List.mem_map.mpr ⟨block, hblock, rfl⟩⟩)
  · intro group hgroup
    have hid := List.mem_map_of_mem (f := fun group => (Node.ofGroup group).id)
      (hperm.mem_iff.mpr hgroup)
    rw [(perm_map_group hlists hperm).mem_iff, ← htargets] at hid
    obtain ⟨⟨parent, target⟩, hedge, heq⟩ := List.mem_map.mp hid
    obtain ⟨head, htarget, hparent⟩ := hhangs _ hedge
    obtain rfl : target = .group group.head := heq
    refine ⟨parent, ?_, List.mem_append_right _ hedge⟩
    rw [NodeId.group.inj htarget, List.flatMap_map]
    exact hparent
  · exact fun id hid => NodeId.toList_dotName (hplaces id hid)
  · refine htree.nodup_ids.map_on fun id hid id' hid' heq => ?_
    refine NodeId.dotName_injective (hplaces id hid) (hplaces id' hid') (String.toList_inj.mp ?_)
    rw [NodeId.toList_dotName (hplaces id hid), NodeId.toList_dotName (hplaces id' hid'), heq]
  · rw [Program.dotBy, Program.dotGraph, hgraph]
    rfl
  · exact hstatements.nodup_iff.mpr (htree.nodup_statements hplaces)

/-- A branch in a loop: the head of the branch is in the body of the loop. -/
theorem nestingGraph_isTree_loop :
    let loop : Program := ⟨[⟨.ofBegin "BeginWhileLoop", []⟩, ⟨.ofBegin "BeginIf", []⟩,
      ⟨.ofDivider "BeginElse", []⟩, ⟨.ofEnd "EndIf", []⟩, ⟨.ofEnd "EndWhileLoop", []⟩]⟩
    loop.isWellFormed = true ∧ ∃ graph, loop.nestingGraph = .ok graph ∧ graph.IsTree ∧
      graph.Leads (.block 0 4) (.group 1) ∧ (graph.ids.map NodeId.dotName).Nodup ∧
      ∃ text, loop.dot = .ok text ∧
        (dotStatements text).count (.edge "block_0_4" "group_1") = 1 := by
  intro loop
  have hwell : loop.isWellFormed = true := by decide
  obtain ⟨gs, owned, graph, text, hgs, howned, -, hgraph, htree, -, -, hparents, -, hnames, -, htext,
    hstatements, hnodup⟩ := nestingGraph_isTree writesDot_text loop hwell
  have hgroups : loop.groups = .ok [groupOf loop [1, 2, 3], groupOf loop [0, 4]] := rfl
  rw [hgroups] at hgs
  cases hgs
  have hblocks : Program.groupsWithBlocks [groupOf loop [1, 2, 3], groupOf loop [0, 4]]
      = .ok [(groupOf loop [1, 2, 3], [⟨loop, 1, 2⟩, ⟨loop, 2, 3⟩]),
        (groupOf loop [0, 4], [⟨loop, 0, 4⟩])] := rfl
  rw [hblocks] at howned
  cases howned
  obtain ⟨parent, hhangs, hleads⟩ := hparents (groupOf loop [1, 2, 3]) List.mem_cons_self
  change HangsUnder [⟨loop, 1, 2⟩, ⟨loop, 2, 3⟩, ⟨loop, 0, 4⟩] 1 parent at hhangs
  obtain rfl : parent = .block 0 4 := by
    cases hhangs with
    | root hnone =>
      have hin : (1 : Int) ∈ (Block.mk loop 0 4).body := by decide
      exact absurd hin (hnone _ (by simp))
    | block hinnermost =>
      -- the branch begins at the blocks of itself, so they do not have it in the body
      have hmem := hinnermost.mem
      simp only [List.mem_cons, List.not_mem_nil, or_false] at hmem
      rcases hmem with rfl | rfl | rfl
      · exact absurd hinnermost.around (by decide)
      · exact absurd hinnermost.around (by decide)
      · rfl
  have hstated := hstatements.mem_iff.mpr
    (List.mem_append_right _ (List.mem_map.mpr ⟨_, hleads, rfl⟩))
  exact ⟨hwell, graph, hgraph, htree, hleads, hnames, text, htext,
    List.count_eq_one_of_mem hnodup hstated⟩

end FlatCode
