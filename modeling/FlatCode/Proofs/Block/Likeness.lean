import Mathlib.Data.List.Forall2
import FlatCode.Block.Depth
import FlatCode.Proofs.Block.Collection

/-!
# What block structure is read off

The walks over a program look at the markers of its instructions, and put their names into what they
refuse. So two programs with the same names and the same markers (`Program.Alike`) have the same
depths, the same groups and the same refusals, whatever else is different.

* `Alike.depths_eq`, `Alike.boundaryLists_eq` — the walks over the whole program
* `Alike.groupBoundaries_eq` — the walk over one group
* `Alike.isWellFormed_eq` — the check
-/

namespace FlatCode

/-! ## Instructions -/

/-- Whether two instructions have the same name and the same marker. -/
def Instruction.Alike (a b : Instruction) : Prop := a.name = b.name ∧ a.marker = b.marker

theorem Facet.holds_congr {a b : Instruction} (h : a.marker = b.marker) (facet : Facet) :
    facet.holds a = facet.holds b := by
  cases facet with
  | blockBegin => rw [Facet.holds_blockBegin, Facet.holds_blockBegin, h]
  | blockEnd => rw [Facet.holds_blockEnd, Facet.holds_blockEnd, h]
  | groupBegin => rw [Facet.holds_groupBegin, Facet.holds_groupBegin, h]

variable {as bs : List Instruction}

theorem depthsFrom_congr (h : List.Forall₂ Instruction.Alike as bs) (idx depth : Nat) :
    depthsFrom idx depth as = depthsFrom idx depth bs := by
  induction h generalizing idx depth with
  | nil => rfl
  | cons hfirst _ ih =>
    obtain ⟨hname, hmarker⟩ := hfirst
    simp only [depthsFrom, hname, hmarker, ih]

theorem closingBoundaries_congr (h : List.Forall₂ Instruction.Alike as bs) (idx : Nat)
    (stack : List OpenGroup) :
    closingBoundaries idx stack as = closingBoundaries idx stack bs := by
  induction h generalizing idx stack with
  | nil => rfl
  | cons hfirst _ ih =>
    obtain ⟨hname, hmarker⟩ := hfirst
    rw [closingBoundaries.eq_def, closingBoundaries.eq_def]
    simp only [hname, hmarker, ih]

/-! ## Programs -/

/-- Programs that count as the same have the same names. -/
theorem Program.names_of_same {p q : Program} (h : p.same q = true) : p.names = q.names := by
  obtain ⟨hsize, hsame⟩ := Bool.and_eq_true_iff.mp h
  refine List.ext_getElem ?_ fun n hp hq => ?_
  · rw [names, names, List.length_map, List.length_map]
    exact eq_of_beq hsize
  · rw [names, List.length_map] at hp hq
    have hzip : n < (p.instructions.zip q.instructions).length := by
      rw [List.length_zip]
      exact Nat.lt_min.mpr ⟨hp, hq⟩
    have hpair : (p.instructions[n], q.instructions[n]) ∈ p.instructions.zip q.instructions :=
      List.mem_iff_getElem.mpr ⟨n, hzip, List.getElem_zip⟩
    have hinstr := List.all_eq_true.mp hsame _ hpair
    have hname := eq_of_beq (Bool.and_eq_true_iff.mp hinstr).1
    simpa [names] using hname

/-- Whether two programs have the same names and the same markers, place by place. -/
def Program.Alike (p q : Program) : Prop :=
  List.Forall₂ Instruction.Alike p.instructions q.instructions

namespace Program.Alike

variable {p q : Program}

theorem size_eq (h : p.Alike q) : p.size = q.size := List.Forall₂.length_eq h

theorem markers_eq (h : p.Alike q) : p.markers = q.markers := by
  have hmarkers : List.Forall₂ (· = ·) p.markers q.markers :=
    List.forall₂_map_left_iff.mpr (List.forall₂_map_right_iff.mpr (h.imp fun _ _ hab => hab.2))
  rwa [List.forall₂_eq_eq_eq] at hmarkers

theorem depths_eq (h : p.Alike q) : p.depths = q.depths := depthsFrom_congr h 0 0

theorem boundaryLists_eq (h : p.Alike q) : p.boundaryLists = q.boundaryLists :=
  closingBoundaries_congr h 0 []

theorem placeWith_eq (h : p.Alike q) (idx : Int) (facet : Facet) :
    p.placeWith idx facet = q.placeWith idx facet := by
  unfold placeWith place
  rw [h.size_eq]
  by_cases hrange : 0 ≤ idx ∧ idx < q.size
  · obtain ⟨n, rfl⟩ := Int.eq_ofNat_of_zero_le hrange.1
    have hq : n < q.instructions.length := Int.ofNat_lt.mp hrange.2
    have hp : n < p.instructions.length := lt_of_lt_of_eq hq h.size_eq.symm
    obtain ⟨hname, hmarker⟩ := (List.forall₂_iff_get.mp h).2 n hp hq
    rw [List.get_eq_getElem, List.get_eq_getElem] at hname hmarker
    rw [if_pos hrange, Int.toNat_natCast]
    dsimp only
    rw [List.getElem?_eq_getElem hp, List.getElem?_eq_getElem hq]
    dsimp only
    rw [Facet.holds_congr hmarker, hname]
  · rw [if_neg hrange]

theorem groupBoundaries_eq (h : p.Alike q) (start : Int) :
    p.groupBoundaries start = q.groupBoundaries start := by
  unfold groupBoundaries markersAfter
  rw [h.placeWith_eq, h.markers_eq]

theorem groups_eq (h : p.Alike q) : p.groups.map (List.map BlockGroup.boundaries)
    = q.groups.map (List.map BlockGroup.boundaries) := by
  have hlists (program : Program) : program.groups.map (List.map BlockGroup.boundaries)
      = program.boundaryLists.map (List.map (List.map fun n : Nat => (n : Int))) := by
    rw [Program.groups_eq, Program.boundaryLists]
    cases closingBoundaries 0 [] program.instructions with
    | error e => rfl
    | ok lists => simp [Except.map, boundaries_groupOf]
  rw [hlists, hlists, h.boundaryLists_eq]

theorem isWellFormed_eq (h : p.Alike q) : p.isWellFormed = q.isWellFormed := by
  rw [Bool.eq_iff_iff, isWellFormed_iff_balanced, isWellFormed_iff_balanced, h.markers_eq]

end Program.Alike

end FlatCode
