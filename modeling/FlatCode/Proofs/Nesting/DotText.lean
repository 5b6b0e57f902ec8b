import Mathlib.Data.List.Basic
import FlatCode.Nesting.Dot
import FlatCode.Proofs.Text.Lines

/-!
# What DOT text states

DOT text has a line for each node and for each edge. What a line states is read off its first name
and what stands behind it (`statement?`); the other lines state nothing. A writer is described by the
statements of its lines (`WritesDot`), so that what follows from them holds of every such writer.

* `DotGraph.Plain.filterMap_lines` — the lines of a graph state its nodes and its edges
* `writesDot_text` — the text of a graph is cut into its lines
-/

namespace FlatCode

/-! ## Statements -/

/-- What a line of DOT text states about a graph. -/
inductive DotStatement where
  | node (name : Text)
  | edge (source target : Text)
  deriving DecidableEq

/-- What a line states by what stands behind its first name: a node has its attributes there, an edge
an arrow to another name. -/
def statementAfter (name : Text) : Text → Option DotStatement
  | [.char ';'] => some (.node name)
  | .char ' ' :: .char '[' :: _ => some (.node name)
  | .char ' ' :: .char '-' :: .char '>' :: .char ' ' :: rest =>
    some (.edge name (rest.takeWhile isDotNameChar))
  | _ => none

/-- What a line states, if it is about a node or an edge. -/
def statement? (line : Text) : Option DotStatement :=
  statementAfter (line.takeWhile isDotNameChar) (line.dropWhile isDotNameChar)

/-- What the lines of a text state. -/
def dotStatements (text : Text) : List DotStatement :=
  (text.splitOn (.char '\n')).filterMap statement?

namespace DotGraph

/-- What is to be stated about a graph: its nodes and its edges. -/
def statements (graph : DotGraph) : List DotStatement :=
  graph.nodes.map (fun node => .node node.name)
    ++ graph.edges.map fun edge => .edge edge.source edge.target

/-- The attributes of a graph, of its nodes and of its edges. -/
def allAttributes (graph : DotGraph) : List (Text × Text) :=
  graph.attributes ++ graph.nodes.flatMap DotNode.attributes
    ++ graph.edges.flatMap DotEdge.attributes

/-- Whether an attribute has a name that needs no quotes, and a value that looks like no text in
quotes or brackets. -/
structure PlainAttribute (entry : Text × Text) : Prop where
  name : isDotName entry.1 = true
  quote : entry.2.getLast? ≠ some (.char '"')
  bracket : entry.2.getLast? ≠ some (.char '>')

/-- Whether all names in a graph need no quotes, and its attributes are plain. -/
structure Plain (graph : DotGraph) : Prop where
  name : isDotName graph.name = true
  nodes : ∀ node ∈ graph.nodes, isDotName node.name = true
  edges : ∀ edge ∈ graph.edges, isDotName edge.source = true ∧ isDotName edge.target = true
  attributes : ∀ entry ∈ graph.allAttributes, PlainAttribute entry

end DotGraph

/-- Whether a writer of DOT text writes a line for each node and for each edge of a graph, and no
other line that states a node or an edge. -/
def WritesDot (write : DotGraph → Text) : Prop :=
  ∀ graph, graph.Plain → (dotStatements (write graph)).Perm graph.statements

/-! ## Lines -/

section Lines

variable {s : Text} {c : CodePoint} {name rest : Text} {graph : DotGraph}
  {attributes : List (Text × Text)} {entry : Text × Text}

theorem isDotNameChar_of_mem (h : isDotName s = true) (hc : c ∈ s) :
    isDotNameChar c = true := by
  rw [isDotName, Bool.and_eq_true, Bool.and_eq_true, List.all_eq_true] at h
  exact h.1.1 c hc

theorem exists_cons_of_isDotName (h : isDotName s = true) :
    ∃ first rest, s = first :: rest ∧ isDotNameChar first = true := by
  cases s with
  | nil => cases h
  | cons first rest => exact ⟨first, rest, rfl, isDotNameChar_of_mem h List.mem_cons_self⟩

/-- A line is read by its first name. -/
theorem statement?_append (hname : ∀ c ∈ name, isDotNameChar c = true)
    (hrest : rest.takeWhile isDotNameChar = []) :
    statement? (name ++ rest) = statementAfter name rest := by
  have hdrop : rest.dropWhile isDotNameChar = rest := by
    have hsplit := List.takeWhile_append_dropWhile (p := isDotNameChar) (l := rest)
    rwa [hrest] at hsplit
  rw [statement?, List.takeWhile_append_of_pos hname, List.dropWhile_append_of_pos hname, hrest,
    hdrop, List.append_nil]

theorem statement?_node (h : isDotName s = true) (attributes : List (Text × Text)) :
    statement? (dotItem s attributes) = some (.node s) := by
  unfold dotItem
  split
  · exact statement?_append (fun c hc => isDotNameChar_of_mem h hc) rfl
  · exact statement?_append (fun c hc => isDotNameChar_of_mem h hc) rfl

theorem takeWhile_isDotName (h : isDotName s = true) (hrest : rest.takeWhile isDotNameChar = []) :
    (s ++ rest).takeWhile isDotNameChar = s := by
  rw [List.takeWhile_append_of_pos fun _ hc => isDotNameChar_of_mem h hc, hrest, List.append_nil]

theorem statement?_edge {source target : Text} (hsource : isDotName source = true)
    (htarget : isDotName target = true) (attributes : List (Text × Text)) :
    statement? (dotItem (source ++ .char ' ' :: .char '-' :: .char '>' :: .char ' ' :: target)
      attributes) = some (.edge source target) := by
  unfold dotItem
  split
  · rw [List.append_assoc, statement?_append (fun c hc => isDotNameChar_of_mem hsource hc) rfl]
    simp only [List.cons_append, statementAfter]
    rw [takeWhile_isDotName htarget rfl]
  · rw [List.append_assoc, statement?_append (fun c hc => isDotNameChar_of_mem hsource hc) rfl]
    simp only [List.cons_append, statementAfter]
    rw [takeWhile_isDotName htarget rfl]

theorem statement?_attribute (h : isDotName entry.1 = true) :
    statement? (dotAttribute entry ++ [.char ';']) = none := by
  rw [dotAttribute, List.append_assoc,
    statement?_append (fun c hc => isDotNameChar_of_mem h hc) rfl]
  rfl

theorem statement?_title (h : isDotName s = true) :
    statement? (Text.ofString "digraph " ++ s ++ [.char ' ', .char '\x7b']) = none := by
  obtain ⟨first, rest, hs, hfirst⟩ := exists_cons_of_isDotName h
  have hline : Text.ofString "digraph " ++ s ++ [.char ' ', .char '\x7b']
      = Text.ofString "digraph" ++ .char ' ' :: first :: (rest ++ [.char ' ', .char '\x7b']) := by
    rw [hs]
    rfl
  rw [hline, statement?_append (List.all_eq_true.mp (by decide)) rfl, statementAfter]
  -- the title has a name where a node has a bracket and an edge an arrow
  · nofun
  · intro _ heq
    obtain ⟨rfl, -⟩ := List.cons.inj (List.cons.inj heq).2
    cases hfirst
  · intro _ heq
    obtain ⟨rfl, -⟩ := List.cons.inj (List.cons.inj heq).2
    cases hfirst

theorem DotGraph.Plain.filterMap_lines (h : graph.Plain) :
    graph.lines.filterMap statement? = graph.statements := by
  have hopening : graph.opening.filterMap statement? = [] := by
    refine List.filterMap_eq_nil_iff.mpr fun line hline => ?_
    rcases List.mem_cons.mp hline with rfl | hline
    · exact statement?_title h.name
    · obtain ⟨entry, hentry, rfl⟩ := List.mem_map.mp hline
      exact statement?_attribute (h.attributes entry (by simp [allAttributes, hentry])).name
  have hnodes : (graph.nodes.map DotNode.line).filterMap statement?
      = graph.nodes.map fun node => .node node.name := by
    rw [List.filterMap_map, ← List.filterMap_eq_map]
    exact List.filterMap_congr fun node hnode => statement?_node (h.nodes node hnode) _
  have hedges : (graph.edges.map DotEdge.line).filterMap statement?
      = graph.edges.map fun edge => .edge edge.source edge.target := by
    rw [List.filterMap_map, ← List.filterMap_eq_map]
    exact List.filterMap_congr fun edge hedge =>
      statement?_edge (h.edges edge hedge).1 (h.edges edge hedge).2 _
  have hclosing : [[.char '\x7d'], []].filterMap statement? = [] := by decide
  rw [lines, List.filterMap_append, List.filterMap_append, List.filterMap_append, hopening, hnodes,
    hedges, hclosing, List.nil_append, List.append_nil, statements]

/-! ## The text -/

theorem not_mem_of_isDotName (h : isDotName s = true) : .char '\n' ∉ s := by
  intro hc
  have hchar := isDotNameChar_of_mem h hc
  exact absurd hchar (by decide)

theorem not_mem_dotChar (c : CodePoint) : .char '\n' ∉ dotChar c := by
  unfold dotChar
  split
  · decide
  · split
    · decide
    · rename_i hfeed
      split
      · decide
      · simpa using Ne.symm hfeed

theorem not_mem_dotValue (s : Text) : .char '\n' ∉ dotValue s := by
  unfold dotValue
  split
  · rename_i h
    exact not_mem_of_isDotName h
  · simp [not_mem_dotChar]

theorem not_mem_dotAttribute (h : isDotName entry.1 = true) : .char '\n' ∉ dotAttribute entry := by
  have hname := not_mem_of_isDotName h
  have hvalue := not_mem_dotValue entry.2
  simp [dotAttribute, hname, hvalue]

theorem not_mem_dotItem (hname : .char '\n' ∉ name)
    (h : ∀ entry ∈ attributes, isDotName entry.1 = true) :
    .char '\n' ∉ dotItem name attributes := by
  have hlist : .char '\n' ∉ [.char ',', .char ' '].intercalate (attributes.map dotAttribute) := by
    intro hmem
    rcases Text.mem_intercalate hmem with hseparator | ⟨part, hpart, hmem⟩
    · exact absurd hseparator (by decide)
    · obtain ⟨entry, hentry, rfl⟩ := List.mem_map.mp hpart
      exact not_mem_dotAttribute (h entry hentry) hmem
  unfold dotItem
  split
  · simp [hname]
  · simp [hname, hlist]

theorem DotGraph.Plain.not_mem_of_mem_lines (h : graph.Plain) :
    ∀ line ∈ graph.lines, .char '\n' ∉ line := by
  have hattribute : ∀ entry ∈ graph.allAttributes, isDotName entry.1 = true :=
    fun entry hentry => (h.attributes entry hentry).name
  simp only [allAttributes, List.mem_append, List.mem_flatMap] at hattribute
  intro line hline
  simp only [lines, opening, List.mem_append, List.mem_cons, List.mem_map, List.not_mem_nil,
    or_false] at hline
  rcases hline with (((rfl | ⟨entry, hentry, rfl⟩) | ⟨node, hnode, rfl⟩) | ⟨edge, hedge, rfl⟩)
    | rfl | rfl
  · have hname := not_mem_of_isDotName h.name
    have hword : .char '\n' ∉ Text.ofString "digraph " := by decide
    simp [hname, hword]
  · have hentry := not_mem_dotAttribute (hattribute entry (.inl (.inl hentry)))
    simp [hentry]
  · exact not_mem_dotItem (not_mem_of_isDotName (h.nodes node hnode)) fun entry hentry =>
      hattribute entry (.inl (.inr ⟨node, hnode, hentry⟩))
  · have hsource := not_mem_of_isDotName (h.edges edge hedge).1
    have htarget := not_mem_of_isDotName (h.edges edge hedge).2
    exact not_mem_dotItem (by simp [hsource, htarget]) fun entry hentry =>
      hattribute entry (.inr ⟨edge, hedge, hentry⟩)
  · decide
  · decide

/-- **The text of a graph states its nodes and its edges**, line by line. -/
theorem writesDot_text : WritesDot DotGraph.text := by
  intro graph h
  have hlines : graph.lines ≠ [] := by simp [DotGraph.lines]
  rw [dotStatements, DotGraph.text,
    List.splitOn_intercalate (.char '\n') h.not_mem_of_mem_lines hlines, h.filterMap_lines]

end Lines

end FlatCode
