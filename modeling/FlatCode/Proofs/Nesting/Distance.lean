import Mathlib.Data.Nat.Find
import FlatCode.Nesting.Distance
import FlatCode.Proofs.Nesting.Graph

/-!
# Distances

The distance of a node is the number of edges on a shortest walk to it (`IsDistance`). A search for
distances is described by what it has to list (`FindsDistances`), so that what follows from distances
holds of every such search. In a tree with a rank that goes up by one along each edge (`RankedBy`),
all walks from the root to a node are as long as its rank.

* `SearchedTo.next` — a search that has come to a distance comes to the next one
* `findsDistances_distances` — the search that goes outward finds the distances
* `RankedBy.farthest` — the farthest node of a tree is at the highest rank
-/

namespace FlatCode

namespace NestingGraph

/-- A walk along edges, from a source to a target, with its number of edges. -/
inductive Walk (graph : NestingGraph) (source : NodeId) : Nat → NodeId → Prop where
  | here : Walk graph source 0 source
  | step {n : Nat} {previous next : NodeId} (walk : Walk graph source n previous)
      (leads : graph.Leads previous next) : Walk graph source (n + 1) next

/-- Whether a shortest walk to a target has a number of edges. -/
structure IsDistance (graph : NestingGraph) (source target : NodeId) (distance : Nat) : Prop where
  walk : graph.Walk source distance target
  least : ∀ n, graph.Walk source n target → distance ≤ n

/-- Whether a search from a node of a graph lists the nodes that are reached, with their
distances. -/
def FindsDistances (search : NestingGraph → NodeId → List (NodeId × Nat)) : Prop :=
  ∀ graph source, source ∈ graph.ids → ∀ target distance,
    (target, distance) ∈ search graph source ↔ graph.IsDistance source target distance

variable {graph : NestingGraph} {source id : NodeId} {k d : Nat}

/-! ## Shortest walks -/

theorem IsDistance.unique {d' : Nat} (h : graph.IsDistance source id d)
    (h' : graph.IsDistance source id d') : d = d' :=
  Nat.le_antisymm (h.least d' h'.walk) (h'.least d h.walk)

/-- What is reached has a distance. -/
theorem Walk.exists_isDistance {n : Nat} (h : graph.Walk source n id) :
    ∃ d ≤ n, graph.IsDistance source id d := by
  classical
  have hreached : ∃ n, graph.Walk source n id := ⟨n, h⟩
  exact ⟨Nat.find hreached, Nat.find_min' hreached h, Nat.find_spec hreached,
    fun m hm => Nat.find_min' hreached hm⟩

/-- A shortest walk comes through a node at the distance before. -/
theorem IsDistance.exists_previous (h : graph.IsDistance source id (d + 1)) :
    ∃ previous, graph.IsDistance source previous d ∧ graph.Leads previous id := by
  cases h.walk with
  | step walk leads =>
    refine ⟨_, ⟨walk, fun n hn => ?_⟩, leads⟩
    have hle := h.least (n + 1) (hn.step leads)
    omega

/-- There are nodes at each distance up to that of a node. -/
theorem IsDistance.exists_of_le (h : graph.IsDistance source id d) (hle : k ≤ d) :
    ∃ previous, graph.IsDistance source previous k := by
  induction d generalizing id with
  | zero =>
    obtain rfl := Nat.le_zero.mp hle
    exact ⟨id, h⟩
  | succ d ih =>
    rcases Nat.eq_or_lt_of_le hle with rfl | hlt
    · exact ⟨id, h⟩
    · obtain ⟨previous, hprevious, -⟩ := h.exists_previous
      exact ih hprevious (Nat.le_of_lt_succ hlt)

/-! ## The search -/

theorem mem_successors {previous next : NodeId} :
    next ∈ graph.successors previous ↔ graph.Leads previous next := by
  simp [successors, Leads]

theorem mem_unseen {seen frontier : List NodeId} : id ∈ graph.unseen seen frontier ↔
    (∃ previous ∈ frontier, graph.Leads previous id) ∧ id ∉ seen := by
  simp [unseen, mem_successors]

/-- Whether a search has come to a distance: the frontier is what lies at it, and what is seen lies
no farther. -/
structure SearchedTo (graph : NestingGraph) (source : NodeId) (k : Nat)
    (seen frontier : List NodeId) : Prop where
  frontier : ∀ id, id ∈ frontier ↔ graph.IsDistance source id k
  seen : ∀ id, id ∈ seen ↔ ∃ n ≤ k, graph.Walk source n id

theorem searchedTo_source (graph : NestingGraph) (source : NodeId) :
    SearchedTo graph source 0 [source] [source] := by
  have hzero : ∀ {id}, graph.Walk source 0 id → id = source := by
    rintro id ⟨⟩
    rfl
  refine ⟨fun id => ?_, fun id => ?_⟩
  · rw [List.mem_singleton]
    exact ⟨fun heq => heq ▸ ⟨.here, fun n _ => Nat.zero_le n⟩, fun h => hzero h.walk⟩
  · rw [List.mem_singleton]
    constructor
    · rintro rfl
      exact ⟨0, Nat.le_refl 0, .here⟩
    · rintro ⟨n, hle, hwalk⟩
      obtain rfl := Nat.le_zero.mp hle
      exact hzero hwalk

/-- **A search that has come to a distance comes to the next one.** -/
theorem SearchedTo.next {seen frontier : List NodeId}
    (h : SearchedTo graph source k seen frontier) :
    SearchedTo graph source (k + 1) (seen ++ graph.unseen seen frontier)
      (graph.unseen seen frontier) := by
  have hfrontier : ∀ id, id ∈ graph.unseen seen frontier ↔
      graph.IsDistance source id (k + 1) := by
    intro id
    rw [mem_unseen, h.seen]
    constructor
    · rintro ⟨⟨previous, hprevious, hleads⟩, hunseen⟩
      refine ⟨((h.frontier previous).mp hprevious).walk.step hleads, fun n hn => ?_⟩
      by_contra hlt
      exact hunseen ⟨n, by omega, hn⟩
    · intro hid
      obtain ⟨previous, hprevious, hleads⟩ := hid.exists_previous
      refine ⟨⟨previous, (h.frontier previous).mpr hprevious, hleads⟩, ?_⟩
      rintro ⟨n, hle, hn⟩
      have hleast := hid.least n hn
      omega
  refine ⟨hfrontier, fun id => ?_⟩
  rw [List.mem_append, h.seen, hfrontier]
  constructor
  · rintro (⟨n, hle, hn⟩ | hid)
    · exact ⟨n, Nat.le_succ_of_le hle, hn⟩
    · exact ⟨k + 1, Nat.le_refl _, hid.walk⟩
  · rintro ⟨n, hle, hn⟩
    obtain ⟨d, hd, hid⟩ := hn.exists_isDistance
    rcases Nat.eq_or_lt_of_le (Nat.le_trans hd hle) with rfl | hlt
    · exact .inr hid
    · exact .inl ⟨d, Nat.le_of_lt_succ hlt, hid.walk⟩

/-- The edges to nodes that are not seen. -/
def edgesLeft (graph : NestingGraph) (seen : List NodeId) : List (NodeId × NodeId) :=
  graph.edges.filter fun edge => edge.2 ∉ seen

/-- If there is something to find, fewer edges are left once it is found. -/
theorem length_edgesLeft_lt {seen frontier : List NodeId}
    (h : id ∈ graph.unseen seen frontier) :
    (graph.edgesLeft (seen ++ graph.unseen seen frontier)).length
      < (graph.edgesLeft seen).length := by
  obtain ⟨⟨previous, -, hleads⟩, hseen⟩ := mem_unseen.mp h
  have hfilter : graph.edgesLeft (seen ++ graph.unseen seen frontier)
      = (graph.edgesLeft seen).filter fun edge => edge.2 ∉ graph.unseen seen frontier := by
    unfold edgesLeft
    rw [List.filter_filter]
    refine List.filter_congr fun edge _ => ?_
    simp [Bool.and_comm]
  rw [hfilter, List.length_filter_lt_length_iff_exists]
  refine ⟨(previous, id), List.mem_filter.mpr ⟨hleads, by simpa using hseen⟩, ?_⟩
  simpa using h

/-- Nothing lies beyond an empty frontier. -/
theorem SearchedTo.lt_of_isDistance {seen : List NodeId} (h : SearchedTo graph source k seen [])
    (hid : graph.IsDistance source id d) : d < k := by
  by_contra hle
  obtain ⟨previous, hprevious⟩ := hid.exists_of_le (Nat.le_of_not_lt hle)
  exact List.not_mem_nil ((h.frontier previous).mpr hprevious)

/-- A search lists what lies at the distance it has come to and beyond, if it is given more times
than edges are left. -/
theorem SearchedTo.mem_distancesFrom {steps : Nat} {seen frontier : List NodeId}
    (h : SearchedTo graph source k seen frontier)
    (hsteps : frontier = [] ∨ (graph.edgesLeft seen).length < steps) :
    (id, d) ∈ graph.distancesFrom steps k seen frontier
      ↔ k ≤ d ∧ graph.IsDistance source id d := by
  induction steps generalizing k seen frontier with
  | zero =>
    obtain rfl := hsteps.resolve_right (Nat.not_lt_zero _)
    simp only [distancesFrom, List.not_mem_nil, false_iff, not_and]
    exact fun hle hid => absurd (h.lt_of_isDistance hid) (Nat.not_lt.mpr hle)
  | succ steps ih =>
    rw [distancesFrom]
    by_cases hempty : frontier = []
    · subst hempty
      simp only [List.isEmpty_nil, if_true, List.not_mem_nil, false_iff, not_and]
      exact fun hle hid => absurd (h.lt_of_isDistance hid) (Nat.not_lt.mpr hle)
    · have hleft : graph.unseen seen frontier = [] ∨
          (graph.edgesLeft (seen ++ graph.unseen seen frontier)).length < steps := by
        refine or_iff_not_imp_left.mpr fun hne => ?_
        obtain ⟨first, hfirst⟩ := List.exists_mem_of_ne_nil _ hne
        have hlt := length_edgesLeft_lt hfirst
        have hsteps := hsteps.resolve_left hempty
        omega
      have hhere : (id, d) ∈ frontier.map (fun id => (id, k)) ↔
          k = d ∧ graph.IsDistance source id k := by
        simp only [List.mem_map, Prod.mk.injEq, h.frontier]
        constructor
        · rintro ⟨_, hid, rfl, rfl⟩
          exact ⟨rfl, hid⟩
        · rintro ⟨rfl, hid⟩
          exact ⟨id, hid, rfl, rfl⟩
      rw [if_neg (by simpa using hempty), List.mem_append, hhere, ih h.next hleft]
      constructor
      · rintro (⟨rfl, hid⟩ | ⟨hle, hid⟩)
        · exact ⟨Nat.le_refl k, hid⟩
        · exact ⟨Nat.le_of_succ_le hle, hid⟩
      · rintro ⟨hle, hid⟩
        rcases Nat.eq_or_lt_of_le hle with rfl | hlt
        · exact .inl ⟨rfl, hid⟩
        · exact .inr ⟨hlt, hid⟩

/-- **The search that goes outward finds the distances.** -/
theorem findsDistances_distances : FindsDistances distances := by
  intro graph source _ target distance
  have hsteps : (graph.edgesLeft [source]).length < graph.edges.length + 1 :=
    Nat.lt_succ_of_le (List.length_filter_le _ _)
  rw [distances, (searchedTo_source graph source).mem_distancesFrom (.inr hsteps)]
  exact and_iff_right (Nat.zero_le distance)

/-! ## Trees with a rank -/

/-- Whether a graph is a tree, and a rank that is zero at the root goes up by one along its edges. -/
structure RankedBy (graph : NestingGraph) (rank : NodeId → Nat) : Prop where
  tree : graph.IsTree
  root : rank .root = 0
  rises : ∀ previous next, graph.Leads previous next → rank next = rank previous + 1

namespace RankedBy

variable {rank : NodeId → Nat} {search : NestingGraph → NodeId → List (NodeId × Nat)} {m : Nat}

/-- A walk from the root is as long as the rank of its target. -/
theorem rank_eq (h : graph.RankedBy rank) (hwalk : graph.Walk .root d id) : rank id = d := by
  induction hwalk with
  | here => exact h.root
  | step walk leads ih => rw [h.rises _ _ leads, ih]

/-- The walks from the root lead to the nodes of the tree. -/
theorem mem_ids (h : graph.RankedBy rank) (hwalk : graph.Walk .root d id) : id ∈ graph.ids := by
  cases hwalk with
  | here => exact h.tree.root_mem
  | step walk leads => exact (h.tree.listed _ _ leads).2

/-- **The distance of a node of a tree is its rank.** -/
theorem isDistance_iff (h : graph.RankedBy rank) :
    graph.IsDistance .root id d ↔ id ∈ graph.ids ∧ rank id = d := by
  constructor
  · exact fun hid => ⟨h.mem_ids hid.walk, h.rank_eq hid.walk⟩
  · rintro ⟨hid, rfl⟩
    have hwalk : ∃ n, graph.Walk .root n id := by
      induction h.tree.reachable id hid with
      | refl => exact ⟨0, .here⟩
      | tail _ hleads ih =>
        obtain ⟨n, hn⟩ := ih (h.tree.listed _ _ hleads).1
        exact ⟨n + 1, hn.step hleads⟩
    obtain ⟨n, hn⟩ := hwalk
    obtain rfl := h.rank_eq hn
    exact ⟨hn, fun n' hn' => Nat.le_of_eq (h.rank_eq hn')⟩

/-- **The farthest node of a tree is at the highest rank.** -/
theorem farthest (h : graph.RankedBy rank) (hsearch : FindsDistances search)
    (hbound : ∀ id ∈ graph.ids, rank id ≤ m) (hm : ∃ id ∈ graph.ids, rank id = m) :
    ((search graph .root).map Prod.snd).max? = some m := by
  have hfound : ∀ id d, (id, d) ∈ search graph .root ↔ id ∈ graph.ids ∧ rank id = d :=
    fun id d => (hsearch graph .root h.tree.root_mem id d).trans h.isDistance_iff
  rw [List.max?_eq_some_iff]
  constructor
  · obtain ⟨id, hid, hrank⟩ := hm
    exact List.mem_map.mpr ⟨(id, m), (hfound id m).mpr ⟨hid, hrank⟩, rfl⟩
  · intro d hd
    obtain ⟨⟨id, d⟩, hentry, rfl⟩ := List.mem_map.mp hd
    obtain ⟨hid, rfl⟩ := (hfound id d).mp hentry
    exact hbound id hid

end RankedBy

end NestingGraph

end FlatCode
