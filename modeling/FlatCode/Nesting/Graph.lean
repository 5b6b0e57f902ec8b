import FlatCode.Nesting.Enclosing

/-!
# The nesting graph

The tree of a program's block structure: under the root and under each block hang the groups that
stand in it, under each group its blocks. Nodes and edges are kept in the order in which they are
added.
-/

namespace FlatCode

/-- What a node stands for. -/
inductive NodeId where
  | root
  | group (head : Int)
  | block (head tail : Nat)
  deriving DecidableEq, Repr

/-- A node with what is shown of it. -/
inductive Node where
  | root
  | group (head tail : Int) (numBlocks : Nat) (beginName : Text)
  | block (head tail body : Nat) (beginName : Text)
  deriving DecidableEq, Repr

namespace Node

/-- What a node stands for. -/
def id : Node → NodeId
  | .root => .root
  | .group head _ _ _ => .group head
  | .block head tail _ _ => .block head tail

/-- The node of a group. -/
def ofGroup (group : BlockGroup) : Node :=
  .group group.head group.tail group.numBlocks group.beginName

/-- The node of a block. -/
def ofBlock (block : Block) : Node :=
  .block block.head block.tail block.body.length block.beginName

/-- The label of a node. -/
def label : Node → Text
  | .root => "program"
  | .group head tail _ name => name ++ s!" [{head}..{tail}]"
  | .block head tail _ name => name ++ s!" [{head}..{tail}]"

end Node

/-- The text of a node's identity. -/
def NodeId.text : NodeId → String
  | .root => "root"
  | .group head => s!"group:{head}"
  | .block head tail => s!"block:{head}-{tail}"

/-- A directed graph with nodes and edges in the order in which they were added. -/
structure NestingGraph where
  nodes : List Node
  edges : List (NodeId × NodeId)

namespace NestingGraph

/-- The nodes that edges from a node lead to. -/
def successors (graph : NestingGraph) (id : NodeId) : List NodeId :=
  (graph.edges.filter fun edge => edge.1 == id).map Prod.snd

/-- The edges by the order of the nodes they start from. -/
def edgesByNode (graph : NestingGraph) : List (NodeId × NodeId) :=
  graph.nodes.flatMap fun node => (graph.successors node.id).map fun next => (node.id, next)

end NestingGraph

namespace Program

/-- The edge to a group from what it stands in. -/
def groupEdge (blocks : List Block) (head : Nat) (around : Option Nat) :
    Except NestingError (NodeId × NodeId) :=
  match around with
  | none => .ok (.root, .group head)
  | some blockHead =>
    match blocks.find? fun block => block.head == blockHead with
    | some block => .ok (.block block.head block.tail, .group head)
    | none => .error (.unownedBlock blockHead)

/-- The nesting graph: nodes and edges of the groups by head, then the edges to the groups. -/
def nestingGraph (program : Program) : Except NestingError NestingGraph :=
  match program.groupsByHead with
  | .error e => .error (.structural e)
  | .ok groups =>
    match groupsWithBlocks groups with
    | .error e => .error (.structural e)
    | .ok groups =>
      match program.enclosingBlocks with
      | .error e => .error e
      | .ok enclosing =>
        let blocks := groups.flatMap Prod.snd
        match enclosing.mapM fun (head, around) => groupEdge blocks head around with
        | .error e => .error e
        | .ok groupEdges =>
          .ok {
            nodes := .root :: groups.flatMap fun (group, blocks) =>
              Node.ofGroup group :: blocks.map Node.ofBlock
            edges := (groups.flatMap fun (group, blocks) => blocks.map fun block =>
              (NodeId.group group.head, NodeId.block block.head block.tail)) ++ groupEdges }

end Program

end FlatCode
