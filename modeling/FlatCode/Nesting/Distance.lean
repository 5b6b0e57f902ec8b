import FlatCode.Nesting.Graph

/-!
# Distances in the nesting graph

How deep groups are nested is read off the distances of the nodes from the root. Which search finds
the distances is left open (`Program.maxGroupDepthBy`); `NestingGraph.distances` goes outward one edge
at a time.
-/

namespace FlatCode

namespace NestingGraph

/-- The nodes that are one edge away from a frontier and not seen yet, each once. -/
def unseen (graph : NestingGraph) (seen frontier : List NodeId) : List NodeId :=
  ((frontier.flatMap graph.successors).filter fun id => !seen.contains id).eraseDups

/-- Goes outward from the nodes that are found at a distance, at most the given number of times, and
lists what is found with its distance. -/
def distancesFrom (graph : NestingGraph) :
    Nat → Nat → List NodeId → List NodeId → List (NodeId × Nat)
  | 0, _, _, _ => []
  | steps + 1, distance, seen, frontier =>
    if frontier.isEmpty then []
    else
      let next := graph.unseen seen frontier
      frontier.map (fun id => (id, distance))
        ++ graph.distancesFrom steps (distance + 1) (seen ++ next) next

/-- The nodes that are reached from a node, each with the number of edges to it. Every step but the
first finds the target of another edge. -/
def distances (graph : NestingGraph) (source : NodeId) : List (NodeId × Nat) :=
  graph.distancesFrom (graph.edges.length + 1) 0 [source] [source]

end NestingGraph

namespace Program

/-- How many groups are nested at the deepest point, by a search for the distances of the nodes from
the root, which itself is at distance zero. A group adds two edges: to itself and to its block. -/
def maxGroupDepthBy (search : NestingGraph → NodeId → List (NodeId × Nat)) (program : Program) :
    Except NestingError Nat :=
  program.nestingGraph.map fun graph =>
    (((search graph .root).map Prod.snd).max?.getD 0 + 1) / 2

/-- How many groups are nested at the deepest point. -/
def maxGroupDepth (program : Program) : Except NestingError Nat :=
  program.maxGroupDepthBy NestingGraph.distances

end Program

end FlatCode
