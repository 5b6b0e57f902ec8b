import FlatCode.Nesting.Graph

/-!
# DOT text

The nesting graph is drawn by way of the DOT language: its nodes and edges become named nodes and
edges with a style (`Program.dotGraph`). Colons and dashes have a meaning in DOT, so node names have
underscores instead. What writes the text is left open (`Program.dotBy`); `DotGraph.text` writes a
line for each node and for each edge.
-/

namespace FlatCode

/-! ## Graphs that are drawn -/

/-- A node that is drawn, with the names and values of its attributes. -/
structure DotNode where
  name : Text
  attributes : List (Text × Text)

/-- An edge that is drawn, from one named node to another. -/
structure DotEdge where
  source : Text
  target : Text
  attributes : List (Text × Text)

/-- A directed graph that is drawn. -/
structure DotGraph where
  name : Text
  attributes : List (Text × Text)
  nodes : List DotNode
  edges : List DotEdge

/-- The name of a node in DOT text. -/
def NodeId.dotName : NodeId → String
  | .root => "root"
  | .group head => s!"group_{head}"
  | .block head tail => s!"block_{head}_{tail}"

/-- The shape of a node. -/
def Node.shape : Node → String
  | .root => "doublecircle"
  | .group .. | .block .. => "box"

/-- The colour that fills a node. -/
def Node.fill : Node → String
  | .root => "#ECEFF1"
  | .group .. => "#FFE082"
  | .block .. => "#C5E1A5"

/-- A node of the nesting graph as it is drawn. -/
def DotNode.ofNode (node : Node) : DotNode where
  name := node.id.dotName
  attributes := [("label", node.label), ("style", "filled"), ("color", "#34495e"),
    ("fontname", "Helvetica"), ("shape", node.shape), ("fillcolor", node.fill)]

/-- An edge of the nesting graph as it is drawn. -/
def DotEdge.ofEdge (edge : NodeId × NodeId) : DotEdge where
  source := edge.1.dotName
  target := edge.2.dotName
  attributes := [("color", "#7f8c8d")]

/-- The nesting graph as it is drawn: all nodes, then the edges by the nodes they start from. -/
def DotGraph.ofNesting (graph : NestingGraph) : DotGraph where
  name := "fuzzblocks_nesting"
  attributes := [("rankdir", "TB"), ("fontname", "Helvetica")]
  nodes := graph.nodes.map DotNode.ofNode
  edges := graph.edgesByNode.map DotEdge.ofEdge

namespace Program

/-- The nesting graph of a program as it is drawn. -/
def dotGraph (program : Program) : Except NestingError DotGraph :=
  program.nestingGraph.map DotGraph.ofNesting

/-- The text that is written for the nesting graph of a program. -/
def dotBy (write : DotGraph → Text) (program : Program) : Except NestingError Text :=
  program.dotGraph.map write

end Program

/-! ## The text -/

/-- The words that DOT keeps for itself, in letters of any case. -/
def dotKeywords : List Text := ["strict", "graph", "digraph", "subgraph", "node", "edge"]

/-- A code point of a name that needs no quotes. -/
def isDotNameChar : CodePoint → Bool
  | .char c => c.isAlphanum || c == '_'
  | .surrogate _ => false

/-- A code point with a capital letter made small. -/
def smallLetter : CodePoint → CodePoint
  | .char c => .char c.toLower
  | .surrogate n => .surrogate n

/-- Whether a text starts with a letter or an underscore. -/
def startsDotName : Text → Bool
  | .char c :: _ => c.isAlpha || c == '_'
  | _ => false

/-- Whether a text is a name that needs no quotes. -/
def isDotName (s : Text) : Bool :=
  s.all isDotNameChar && startsDotName s && !dotKeywords.contains (s.map smallLetter)

/-- A code point of a quoted text: quotes and line ends are escaped, backslashes are not. -/
def dotChar (c : CodePoint) : Text :=
  if c = .char '"' then [.char '\\', .char '"']
  else if c = .char '\n' then [.char '\\', .char 'n']
  else if c = .char '\r' then [.char '\\', .char 'r']
  else [c]

/-- The value of an attribute, in quotes if it is no name. -/
def dotValue (s : Text) : Text :=
  if isDotName s then s else .char '"' :: (s.flatMap dotChar ++ [.char '"'])

/-- An attribute with its value. -/
def dotAttribute (entry : Text × Text) : Text := entry.1 ++ .char '=' :: dotValue entry.2

/-- An item of a graph with its attributes in brackets. -/
def dotItem (subject : Text) (attributes : List (Text × Text)) : Text :=
  if attributes.isEmpty then subject ++ [.char ';']
  else
    let list := [.char ',', .char ' '].intercalate (attributes.map dotAttribute)
    subject ++ .char ' ' :: .char '[' :: (list ++ [.char ']', .char ';'])

/-- The line of a node. -/
def DotNode.line (node : DotNode) : Text := dotItem node.name node.attributes

/-- The line of an edge. -/
def DotEdge.line (edge : DotEdge) : Text :=
  dotItem (edge.source ++ .char ' ' :: .char '-' :: .char '>' :: .char ' ' :: edge.target)
    edge.attributes

/-- The lines in front of the nodes. -/
def DotGraph.opening (graph : DotGraph) : List Text :=
  (Text.ofString "digraph " ++ graph.name ++ [.char ' ', .char '\x7b'])
    :: graph.attributes.map fun entry => dotAttribute entry ++ [.char ';']

/-- The lines of a graph: the last one is closed by a line end too. -/
def DotGraph.lines (graph : DotGraph) : List Text :=
  graph.opening ++ graph.nodes.map DotNode.line ++ graph.edges.map DotEdge.line
    ++ [[.char '\x7d'], []]

/-- The DOT text of a graph. -/
def DotGraph.text (graph : DotGraph) : Text := [.char '\n'].intercalate graph.lines

/-- The DOT text of a program's nesting graph. -/
def Program.dot (program : Program) : Except NestingError Text := program.dotBy DotGraph.text

end FlatCode
