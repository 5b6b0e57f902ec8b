import FlatCode.Block.Basic
import FlatCode.Proofs.Block.Enumeration
import FlatCode.Proofs.Block.Paired

/-!
# Begins and ends that belong together

The questions for the end and for the begin of a block are answered with paired markers, so each
answer takes back the other. In terms of programs, two indices match (`Program.Matches`) if a block
begins at one and ends at the other and the instructions between them are well formed on their own;
the program may be malformed outside.

* `blockEnd_eq_ok_iff`, `blockBegin_eq_ok_iff` — both questions are answered with paired markers
* `blockEnd_iff_blockBegin` — begins, ends and blocks in terms of matching indices
-/

namespace FlatCode

/-! ## Questions about a program -/

/-- Whether an instruction of the program stands at an index and has a facet. -/
def Program.HasFacet (program : Program) (idx : Int) (facet : Facet) : Prop :=
  ∃ n : Nat, idx = n ∧ ∃ instr, program.instructions[n]? = some instr ∧ facet.holds instr = true

theorem Program.placeWith_eq_ok_iff {program : Program} {idx : Int} {facet : Facet} {n : Nat} :
    program.placeWith idx facet = .ok n ↔
      idx = n ∧ ∃ instr, program.instructions[n]? = some instr ∧ facet.holds instr = true := by
  unfold Program.placeWith Program.place
  by_cases hrange : 0 ≤ idx ∧ idx < program.size
  · rw [if_pos hrange]
    obtain ⟨k, rfl⟩ := Int.eq_ofNat_of_zero_le hrange.1
    have hlt : k < program.instructions.length := Int.ofNat_lt.mp hrange.2
    have hget := List.getElem?_eq_getElem hlt
    dsimp only
    rw [Int.toNat_natCast, hget]
    dsimp only
    by_cases hfacet : facet.holds program.instructions[k] = true
    · rw [if_pos hfacet]
      constructor
      · intro h
        cases h
        exact ⟨rfl, _, hget, hfacet⟩
      · rintro ⟨heq, -⟩
        rw [Int.ofNat.inj heq]
    · rw [if_neg hfacet]
      constructor
      · intro h
        cases h
      · rintro ⟨heq, instr, hinstr, hholds⟩
        obtain rfl := Int.ofNat.inj heq
        rw [hget] at hinstr
        cases hinstr
        exact absurd hholds hfacet
  · rw [if_neg hrange]
    constructor
    · intro h
      cases h
    · rintro ⟨rfl, instr, hinstr, -⟩
      obtain ⟨hlt, -⟩ := List.getElem?_eq_some_iff.mp hinstr
      exact absurd ⟨Int.natCast_nonneg n, Int.ofNat_lt.mpr hlt⟩ hrange

theorem Program.hasFacet_iff {program : Program} {idx : Int} {facet : Facet} :
    program.HasFacet idx facet ↔ ∃ n, program.placeWith idx facet = .ok n := by
  constructor
  · rintro ⟨n, hn⟩
    exact ⟨n, placeWith_eq_ok_iff.mpr hn⟩
  · rintro ⟨n, hn⟩
    exact ⟨n, placeWith_eq_ok_iff.mp hn⟩

/-- A question that is asked of the wrong instruction is refused. -/
theorem Program.error_of_placeWith {program : Program} {idx : Int} {facet : Facet}
    {e : StructureError} (h : program.placeWith idx facet = .error e) :
    ¬program.HasFacet idx facet ∧ e.kind = .precondition := by
  constructor
  · rw [hasFacet_iff, h]
    rintro ⟨n, hn⟩
    cases hn
  · unfold Program.placeWith Program.place at h
    split at h
    · rename_i hplace
      split at hplace <;> cases hplace
      cases h
      rfl
    · split at h
      · cases h
        rfl
      · split at h <;> cases h
        rfl

/-- Where a facet is read off the marker, so is whether an index has it. -/
theorem Program.hasFacet_iff_marker {program : Program} {facet : Facet} {marked : Marker → Bool}
    (h : ∀ instr, facet.holds instr = marked instr.marker) {n : Nat} :
    program.HasFacet n facet ↔ ∃ m, program.markers[n]? = some m ∧ marked m = true := by
  constructor
  · rintro ⟨k, heq, instr, hinstr, hholds⟩
    obtain rfl := Int.ofNat.inj heq
    rw [h] at hholds
    exact ⟨instr.marker, marker_of_instruction hinstr, hholds⟩
  · rintro ⟨m, hm, hmarked⟩
    obtain ⟨instr, hinstr, rfl⟩ := exists_instruction_of_marker hm
    refine ⟨n, rfl, instr, hinstr, ?_⟩
    rw [h]
    exact hmarked

theorem Facet.holds_blockBegin (instr : Instruction) :
    Facet.blockBegin.holds instr = instr.marker.opens :=
  (Marker.opens_ofFacets _ _).symm

theorem Facet.holds_blockEnd (instr : Instruction) :
    Facet.blockEnd.holds instr = instr.marker.closes :=
  (Marker.closes_ofFacets _ _).symm

theorem Program.hasFacet_blockBegin {program : Program} {n : Nat} :
    program.HasFacet n .blockBegin ↔ ∃ m, program.markers[n]? = some m ∧ m.opens = true :=
  hasFacet_iff_marker Facet.holds_blockBegin

theorem Program.hasFacet_blockEnd {program : Program} {n : Nat} :
    program.HasFacet n .blockEnd ↔ ∃ m, program.markers[n]? = some m ∧ m.closes = true :=
  hasFacet_iff_marker Facet.holds_blockEnd

/-- **The walk to an end answers with the paired marker.** -/
theorem Program.blockEnd_eq_ok_iff {program : Program} {start : Int} {stop : Nat} :
    program.blockEnd start = .ok stop ↔ ∃ n : Nat, start = n ∧ Paired program.markers n stop := by
  unfold Program.blockEnd
  cases hplace : program.placeWith start .blockBegin with
  | error e =>
    constructor
    · intro h
      cases h
    · rintro ⟨n, rfl, hpaired⟩
      obtain ⟨-, hopens, -⟩ := paired_iff.mp hpaired
      exact absurd (hasFacet_blockBegin.mpr hopens) (error_of_placeWith hplace).1
  | ok n =>
    obtain ⟨rfl, instr, hinstr, hholds⟩ := placeWith_eq_ok_iff.mp hplace
    rw [Facet.holds_blockBegin] at hholds
    dsimp only
    rw [markersAfter, walkToEnd_iff_paired (marker_of_instruction hinstr) hholds]
    constructor
    · intro hpaired
      exact ⟨n, rfl, hpaired⟩
    · rintro ⟨k, heq, hpaired⟩
      obtain rfl := Int.ofNat.inj heq
      exact hpaired

/-- **The walk back to a begin answers with the paired marker.** -/
theorem Program.blockBegin_eq_ok_iff {program : Program} {stop : Int} {start : Nat} :
    program.blockBegin stop = .ok start ↔ ∃ n : Nat, stop = n ∧ Paired program.markers start n := by
  unfold Program.blockBegin
  cases hplace : program.placeWith stop .blockEnd with
  | error e =>
    constructor
    · intro h
      cases h
    · rintro ⟨n, rfl, hpaired⟩
      obtain ⟨-, -, hcloses, -⟩ := paired_iff.mp hpaired
      exact absurd (hasFacet_blockEnd.mpr hcloses) (error_of_placeWith hplace).1
  | ok n =>
    obtain ⟨rfl, instr, hinstr, hholds⟩ := placeWith_eq_ok_iff.mp hplace
    rw [Facet.holds_blockEnd] at hholds
    dsimp only
    rw [markersBefore, walkToBegin_iff_paired (marker_of_instruction hinstr) hholds]
    constructor
    · intro hpaired
      exact ⟨n, rfl, hpaired⟩
    · rintro ⟨k, heq, hpaired⟩
      obtain rfl := Int.ofNat.inj heq
      exact hpaired

theorem Program.error_of_blockEnd {program : Program} {start : Int} {e : StructureError}
    (h : program.blockEnd start = .error e) :
    (¬program.HasFacet start .blockBegin ∧ e.kind = .precondition) ∨
      (program.HasFacet start .blockBegin ∧ e = .blockNeverClosed start.toNat) := by
  unfold Program.blockEnd at h
  cases hplace : program.placeWith start .blockBegin with
  | error e' =>
    rw [hplace] at h
    cases h
    exact .inl (error_of_placeWith hplace)
  | ok n =>
    rw [hplace] at h
    obtain ⟨rfl, hfacet⟩ := placeWith_eq_ok_iff.mp hplace
    exact .inr ⟨⟨n, rfl, hfacet⟩, error_of_walkToEnd h⟩

theorem Program.error_of_blockBegin {program : Program} {stop : Int} {e : StructureError}
    (h : program.blockBegin stop = .error e) :
    (¬program.HasFacet stop .blockEnd ∧ e.kind = .precondition) ∨
      (program.HasFacet stop .blockEnd ∧ e = .blockNeverOpened stop.toNat) := by
  unfold Program.blockBegin at h
  cases hplace : program.placeWith stop .blockEnd with
  | error e' =>
    rw [hplace] at h
    cases h
    exact .inl (error_of_placeWith hplace)
  | ok n =>
    rw [hplace] at h
    obtain ⟨rfl, hfacet⟩ := placeWith_eq_ok_iff.mp hplace
    exact .inr ⟨⟨n, rfl, hfacet⟩, error_of_walkToBegin h⟩

/-! ## Programs between two markers -/

/-- The instructions strictly between two indices. -/
def Program.between (program : Program) (start stop : Int) : Program :=
  ⟨(program.instructions.take stop.toNat).drop (start.toNat + 1)⟩

/-- Whether a block begins at one index and ends at another, and what stands between the two is
well formed on its own. -/
structure Program.Matches (program : Program) (start stop : Int) : Prop where
  nonneg : 0 ≤ start
  lt : start < stop
  lt_size : stop < program.size
  begins : program.HasFacet start .blockBegin
  ends : program.HasFacet stop .blockEnd
  wellFormed : (program.between start stop).isWellFormed = true

theorem Program.isWellFormed_between {program : Program} {start stop : Nat} :
    (program.between start stop).isWellFormed = true ↔
      Balanced ((program.markers.take stop).drop (start + 1)) := by
  rw [isWellFormed_iff_balanced, markers, between, List.map_drop, List.map_take]
  rfl

/-- Two indices match if the markers there are paired. -/
theorem Program.matches_iff_paired {program : Program} {start stop : Int} :
    program.Matches start stop ↔
      ∃ b e : Nat, start = b ∧ stop = e ∧ Paired program.markers b e := by
  constructor
  · intro h
    obtain ⟨b, rfl, hbegin⟩ := h.begins
    obtain ⟨e, rfl, hend⟩ := h.ends
    refine ⟨b, e, rfl, rfl, paired_iff.mpr ⟨Int.ofNat_lt.mp h.lt, ?_, ?_, ?_⟩⟩
    · exact hasFacet_blockBegin.mp h.begins
    · exact hasFacet_blockEnd.mp h.ends
    · exact isWellFormed_between.mp h.wellFormed
  · rintro ⟨b, e, rfl, rfl, hpaired⟩
    obtain ⟨hlt, hopens, hcloses, hinner⟩ := paired_iff.mp hpaired
    have hsize : e < program.size := by
      obtain ⟨m, hm, -⟩ := hcloses
      obtain ⟨hin, -⟩ := List.getElem?_eq_some_iff.mp hm
      rw [markers, List.length_map] at hin
      exact hin
    exact {
      nonneg := Int.natCast_nonneg b
      lt := Int.ofNat_lt.mpr hlt
      lt_size := Int.ofNat_lt.mpr hsize
      begins := hasFacet_blockBegin.mpr hopens
      ends := hasFacet_blockEnd.mpr hcloses
      wellFormed := isWellFormed_between.mpr hinner }

/-! ## Blocks -/

theorem Program.blockEnd_iff_matches {program : Program} {start stop : Int} :
    (program.blockEnd start).map (fun n : Nat => (n : Int)) = .ok stop ↔
      program.Matches start stop := by
  rw [matches_iff_paired]
  constructor
  · intro h
    cases hwalk : program.blockEnd start with
    | error e =>
      rw [hwalk] at h
      cases h
    | ok e =>
      rw [hwalk] at h
      cases h
      obtain ⟨b, rfl, hpaired⟩ := blockEnd_eq_ok_iff.mp hwalk
      exact ⟨b, e, rfl, rfl, hpaired⟩
  · rintro ⟨b, e, rfl, rfl, hpaired⟩
    rw [blockEnd_eq_ok_iff.mpr ⟨b, rfl, hpaired⟩]
    rfl

theorem Program.blockBegin_iff_matches {program : Program} {start stop : Int} :
    (program.blockBegin stop).map (fun n : Nat => (n : Int)) = .ok start ↔
      program.Matches start stop := by
  rw [matches_iff_paired]
  constructor
  · intro h
    cases hwalk : program.blockBegin stop with
    | error e =>
      rw [hwalk] at h
      cases h
    | ok b =>
      rw [hwalk] at h
      cases h
      obtain ⟨e, rfl, hpaired⟩ := blockBegin_eq_ok_iff.mp hwalk
      exact ⟨b, e, rfl, rfl, hpaired⟩
  · rintro ⟨b, e, rfl, rfl, hpaired⟩
    rw [blockBegin_eq_ok_iff.mpr ⟨e, rfl, hpaired⟩]
    rfl

/-- The block of two paired markers. -/
theorem Block.ofEnds_of_paired {program : Program} {b e : Nat}
    (h : Paired program.markers b e) : Block.ofEnds program b e = .ok ⟨program, b, e⟩ := by
  obtain ⟨-, hopens, hcloses, -⟩ := paired_iff.mp h
  obtain ⟨first, hfirst⟩ := Program.hasFacet_iff.mp (Program.hasFacet_blockBegin.mpr hopens)
  obtain ⟨last, hlast⟩ := Program.hasFacet_iff.mp (Program.hasFacet_blockEnd.mpr hcloses)
  obtain rfl : b = first := Int.ofNat.inj (Program.placeWith_eq_ok_iff.mp hfirst).1
  obtain rfl : e = last := Int.ofNat.inj (Program.placeWith_eq_ok_iff.mp hlast).1
  have hbegin : program.blockBegin e = .ok b := Program.blockBegin_eq_ok_iff.mpr ⟨e, rfl, h⟩
  have hend : program.blockEnd b = .ok e := Program.blockEnd_eq_ok_iff.mpr ⟨b, rfl, h⟩
  unfold Block.ofEnds
  simp only [hfirst, hlast, hbegin, hend, ne_eq, not_true, if_false]

/-- Only paired markers have a block. -/
theorem Block.paired_of_ofEnds {program : Program} {start stop : Int} {block : Block}
    (h : Block.ofEnds program start stop = .ok block) :
    ∃ b e : Nat, start = b ∧ stop = e ∧ Paired program.markers b e := by
  unfold Block.ofEnds at h
  cases hfirst : program.placeWith start .blockBegin with
  | error err =>
    rw [hfirst] at h
    cases h
  | ok first =>
    cases hlast : program.placeWith stop .blockEnd with
    | error err =>
      rw [hfirst, hlast] at h
      cases h
    | ok last =>
      cases hbegin : program.blockBegin stop with
      | error err =>
        rw [hfirst, hlast, hbegin] at h
        cases h
      | ok opening =>
        rw [hfirst, hlast, hbegin] at h
        dsimp only at h
        -- the walk back has to answer with the head of the block
        by_cases hsame : opening = first
        · obtain ⟨e, rfl, hpaired⟩ := Program.blockBegin_eq_ok_iff.mp hbegin
          obtain ⟨rfl, -⟩ := Program.placeWith_eq_ok_iff.mp hfirst
          rw [hsame] at hpaired
          exact ⟨first, e, rfl, rfl, hpaired⟩
        · rw [if_pos hsame] at h
          cases h

theorem Block.startingAt_of_paired {program : Program} {b e : Nat}
    (h : Paired program.markers b e) : Block.startingAt program b = .ok ⟨program, b, e⟩ := by
  have hend : program.blockEnd b = .ok e := Program.blockEnd_eq_ok_iff.mpr ⟨b, rfl, h⟩
  rw [Block.startingAt, hend]
  exact ofEnds_of_paired h

theorem Block.endingAt_of_paired {program : Program} {b e : Nat}
    (h : Paired program.markers b e) : Block.endingAt program e = .ok ⟨program, b, e⟩ := by
  have hbegin : program.blockBegin e = .ok b := Program.blockBegin_eq_ok_iff.mpr ⟨e, rfl, h⟩
  rw [Block.endingAt, hbegin]
  exact ofEnds_of_paired h

/-- **The walk to an end and the walk back are inverse to each other**, and both find the markers
with a well-formed program between them, wherever the program is malformed outside. The blocks are
those of matching markers. A walk is refused only where it starts at the wrong instruction, and
fails otherwise only at the end of the program. -/
theorem blockEnd_iff_blockBegin (program : Program) :
    (∀ start stop : Int,
      ((program.blockEnd start).map (fun n : Nat => (n : Int)) = .ok stop ↔
        program.Matches start stop) ∧
      ((program.blockBegin stop).map (fun n : Nat => (n : Int)) = .ok start ↔
        program.Matches start stop) ∧
      ((∃ block, Block.ofEnds program start stop = .ok block) ↔ program.Matches start stop) ∧
      (program.Matches start stop →
        Block.ofEnds program start stop = .ok ⟨program, start.toNat, stop.toNat⟩ ∧
        Block.startingAt program start = .ok ⟨program, start.toNat, stop.toNat⟩ ∧
        Block.endingAt program stop = .ok ⟨program, start.toNat, stop.toNat⟩)) ∧
    (∀ (start : Int) (e : StructureError), program.blockEnd start = .error e →
      (¬program.HasFacet start .blockBegin ∧ e.kind = .precondition) ∨
      (program.HasFacet start .blockBegin ∧ e.kind = .malformed ∧
        e = .blockNeverClosed start.toNat)) ∧
    (∀ (stop : Int) (e : StructureError), program.blockBegin stop = .error e →
      (¬program.HasFacet stop .blockEnd ∧ e.kind = .precondition) ∨
      (program.HasFacet stop .blockEnd ∧ e.kind = .malformed ∧
        e = .blockNeverOpened stop.toNat)) := by
  refine ⟨fun start stop => ⟨Program.blockEnd_iff_matches, Program.blockBegin_iff_matches, ?_, ?_⟩,
    ?_, ?_⟩
  · constructor
    · rintro ⟨block, hblock⟩
      exact Program.matches_iff_paired.mpr (Block.paired_of_ofEnds hblock)
    · intro h
      obtain ⟨b, e, rfl, rfl, hpaired⟩ := Program.matches_iff_paired.mp h
      exact ⟨_, Block.ofEnds_of_paired hpaired⟩
  · intro h
    obtain ⟨b, e, rfl, rfl, hpaired⟩ := Program.matches_iff_paired.mp h
    exact ⟨Block.ofEnds_of_paired hpaired, Block.startingAt_of_paired hpaired,
      Block.endingAt_of_paired hpaired⟩
  · intro start e h
    rcases Program.error_of_blockEnd h with hrefused | ⟨hfacet, rfl⟩
    · exact .inl hrefused
    · exact .inr ⟨hfacet, rfl, rfl⟩
  · intro stop e h
    rcases Program.error_of_blockBegin h with hrefused | ⟨hfacet, rfl⟩
    · exact .inl hrefused
    · exact .inr ⟨hfacet, rfl, rfl⟩

/-- Blocks of a group that is surrounded by an end and a begin of no group. -/
theorem blocks_strays :
    let strays : Program := ⟨[⟨.ofEnd "EndIf", []⟩, ⟨.ofBegin "BeginIf", []⟩,
      ⟨.ofDivider "BeginElse", []⟩, ⟨.ofEnd "EndIf", []⟩, ⟨.ofBegin "BeginIf", []⟩]⟩
    strays.isWellFormed = false ∧ strays.Matches 1 2 ∧ strays.Matches 2 3 ∧
      ¬strays.Matches 1 3 ∧ Block.endingAt strays 3 = .ok ⟨strays, 2, 3⟩ := by
  intro strays
  have h := (blockEnd_iff_blockBegin strays).1
  have hfirst : strays.Matches 1 2 := (h 1 2).1.mp rfl
  have hsecond : strays.Matches 2 3 := (h 2 3).2.1.mp rfl
  refine ⟨by decide, hfirst, hsecond, ?_, ((h 2 3).2.2.2 hsecond).2.2⟩
  intro hboth
  exact absurd (Except.ok.inj ((h 1 3).1.mpr hboth)) (by decide)

end FlatCode
