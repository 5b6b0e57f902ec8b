import FlatCode.Proofs.Block.OpenGroups
import FlatCode.Proofs.Block.Partition

/-!
# Where markers do not fit together

The walk that lists the groups keeps the open groups on a stack, and the walk that finds the depths
counts them, so the two accept the same programs and refuse a marker at the same place
(`SameOutcome`). What the first one blames is wrong from the markers alone (`Blames`): the marker
has no begin, or the group has no end. So the walks to the partners of single markers find that a
program is malformed too, and none of them finds it where the others do not.

* `sameOutcome_walks` — the stack is as high as the count
* `blames_of_closingBoundaries` — an unopened end stands behind balanced markers, and a group that is
  left open encloses the end of the program
* `groups_iff_depths` — all that find a program malformed agree
-/

namespace FlatCode

/-! ## Two walks side by side -/

/-- Whether a walk over groups and a walk over depths both answer, or fail at the same fault. -/
inductive SameOutcome {α β : Type} : Except StructureError α → Except StructureError β → Prop where
  | answers (a : α) (b : β) : SameOutcome (.ok a) (.ok b)
  | neverOpened (n : Nat) (name : Text) :
      SameOutcome (.error (.neverOpened n name)) (.error (.neverOpened n name))
  | leftOpen (head count : Nat) :
      SameOutcome (.error (.groupNeverClosed head)) (.error (.leftOpen (count + 1)))

namespace SameOutcome

variable {α α' β β' : Type} {x : Except StructureError α} {y : Except StructureError β}

theorem map (f : α → α') (g : β → β') (h : SameOutcome x y) : SameOutcome (x.map f) (y.map g) := by
  cases h with
  | answers a b => exact .answers (f a) (g b)
  | neverOpened n name => exact .neverOpened n name
  | leftOpen head count => exact .leftOpen head count

theorem map_right (g : β → β') (h : SameOutcome x y) : SameOutcome x (y.map g) := by
  have hmap := h.map id g
  rwa [Except.map_id] at hmap

theorem exists_ok_iff (h : SameOutcome x y) : (∃ a, x = .ok a) ↔ ∃ b, y = .ok b := by
  cases h <;> simp

theorem neverOpened_iff (h : SameOutcome x y) (n : Nat) (name : Text) :
    x = .error (.neverOpened n name) ↔ y = .error (.neverOpened n name) := by
  cases h <;> simp

end SameOutcome

/-- **The walk over depths counts the open groups of the walk over groups.** -/
theorem sameOutcome_walks (idx : Nat) (stack : List OpenGroup) (instrs : List Instruction) :
    SameOutcome (closingBoundaries idx stack instrs) (depthsFrom idx stack.length instrs) := by
  induction instrs generalizing idx stack with
  | nil =>
    cases stack with
    | nil => exact .answers _ _
    | cons group outer => exact .leftOpen _ _
  | cons instr rest ih =>
    rw [closingBoundaries.eq_def]
    dsimp only
    cases hm : instr.marker with
    | plain =>
      rw [show depthsFrom idx stack.length (instr :: rest) = _ from depthsFrom_cons hm idx _ rest]
      exact (ih (idx + 1) stack).map_right _
    | groupBegin =>
      rw [show depthsFrom idx stack.length (instr :: rest) = _ from depthsFrom_cons hm idx _ rest]
      exact (ih (idx + 1) (⟨idx, []⟩ :: stack)).map_right _
    | divider =>
      cases stack with
      | nil =>
        simp only [List.length_nil, depthsFrom, hm]
        exact .neverOpened _ _
      | cons group outer =>
        rw [show depthsFrom idx (group :: outer).length (instr :: rest) = _ from
          depthsFrom_cons hm idx outer.length rest]
        exact (ih (idx + 1) (⟨group.head, group.dividers ++ [idx]⟩ :: outer)).map_right _
    | groupEnd =>
      cases stack with
      | nil =>
        simp only [List.length_nil, depthsFrom, hm]
        exact .neverOpened _ _
      | cons group outer =>
        rw [show depthsFrom idx (group :: outer).length (instr :: rest) = _ from
          depthsFrom_cons hm idx outer.length rest]
        exact (ih (idx + 1) outer).map _ _

theorem Program.sameOutcome (program : Program) : SameOutcome program.groups program.depths := by
  have hmap := (sameOutcome_walks 0 [] program.instructions).map (List.map (groupOf program)) id
  rwa [← Program.groups_eq, Except.map_id] at hmap

/-! ## What a walk blames -/

/-- Whether an error tells what is wrong with markers: an end that ends no group, behind balanced
markers, or a group that encloses the end of all. -/
inductive Blames (ms : List Marker) : StructureError → Prop where
  | neverOpened {n : Nat} {name : Text} (hcloses : ∃ m, ms[n]? = some m ∧ m.closes = true)
      (hbalanced : Balanced (ms.take n)) : Blames ms (.neverOpened n name)
  | groupNeverClosed {head n : Nat} (hend : ms.length ≤ n) (hencloses : Encloses ms head n) :
      Blames ms (.groupNeverClosed head)

/-- **The walk over groups blames what is wrong.** Its stack holds the groups that are open. -/
theorem blames_of_closingBoundaries {ms : List Marker} {idx : Nat} {stack : List OpenGroup}
    {places : List (Nat × Nat)} {instrs : List Instruction} {e : StructureError}
    (hdrop : ms.drop idx = instrs.map Instruction.marker) (hopen : OpenAt ms idx places)
    (hstack : stack.map OpenGroup.head = places.map Prod.fst)
    (h : closingBoundaries idx stack instrs = .error e) : Blames ms e := by
  induction instrs generalizing idx stack places with
  | nil =>
    cases stack with
    | nil => cases h
    | cons group outer =>
      cases h
      cases hopen with
      | nil => cases hstack
      | cons hgroup =>
        obtain ⟨rfl, -⟩ := List.cons.inj hstack
        exact .groupNeverClosed (List.drop_eq_nil_iff.mp hdrop) hgroup
  | cons instr rest ih =>
    rw [List.map_cons] at hdrop
    have hrest := drop_of_drop_cons hdrop
    have hn := getElem?_of_drop_cons hdrop
    rw [closingBoundaries.eq_def] at h
    dsimp only at h
    cases hm : instr.marker with
    | plain =>
      rw [hm] at h hn
      exact ih hrest (hopen.plain hn) hstack h
    | groupBegin =>
      rw [hm] at h hn
      exact ih hrest (hopen.groupBegin hn) (by simp [hstack]) h
    | divider =>
      rw [hm] at h hn
      cases hopen with
      | nil hbalanced =>
        obtain rfl := List.map_eq_nil_iff.mp hstack
        cases h
        exact .neverOpened ⟨_, hn, rfl⟩ hbalanced
      | @cons _ head block outer hgroup hblock houter =>
        obtain ⟨group, stack, rfl, rfl, houters⟩ := List.map_eq_cons_iff.mp hstack
        exact ih hrest ((OpenAt.cons hgroup hblock houter).divider hn) (by simp [houters]) h
    | groupEnd =>
      rw [hm] at h hn
      cases hopen with
      | nil hbalanced =>
        obtain rfl := List.map_eq_nil_iff.mp hstack
        cases h
        exact .neverOpened ⟨_, hn, rfl⟩ hbalanced
      | cons hgroup hblock houter =>
        obtain ⟨group, stack, rfl, -, houters⟩ := List.map_eq_cons_iff.mp hstack
        dsimp only at h
        cases hwalk : closingBoundaries (idx + 1) stack rest with
        | ok lists =>
          rw [hwalk] at h
          cases h
        | error e' =>
          rw [hwalk] at h
          cases h
          exact ih hrest ((OpenAt.cons hgroup hblock houter).groupEnd hn) houters hwalk

theorem Program.blames_of_groups {program : Program} {e : StructureError}
    (h : program.groups = .error e) : Blames program.markers e := by
  rw [Program.groups_eq] at h
  cases hwalk : closingBoundaries 0 [] program.instructions with
  | ok lists =>
    rw [hwalk] at h
    cases h
  | error e' =>
    rw [hwalk] at h
    cases h
    exact blames_of_closingBoundaries rfl (openAt_zero _) rfl hwalk

/-! ## Partners -/

/-- A group that encloses the end of the program has no end. -/
theorem Encloses.groupBoundaries {program : Program} {head n : Nat}
    (h : Encloses program.markers head n) (hn : program.markers.length ≤ n) :
    program.groupBoundaries head = .error (.groupNeverClosed head) := by
  cases hwalk : program.groupBoundaries head with
  | error e => rw [(Program.error_of_groupBoundaries h.begins hwalk).1]
  | ok bs =>
    obtain ⟨head', tail, heq, hlisted⟩ := exists_listed hwalk
    obtain rfl := Int.ofNat.inj heq
    -- an end of the group would stand behind all markers
    have hle := h.le_of_spans hlisted.spans
    obtain ⟨hlt, -⟩ := List.getElem?_eq_some_iff.mp hlisted.spans.ends
    omega

/-- What is blamed has no partner. -/
theorem Blames.exists_error {program : Program} {e : StructureError}
    (h : Blames program.markers e) :
    (∃ (idx : Int) (e' : StructureError), program.HasFacet idx .blockBegin ∧
      program.blockEnd idx = .error e') ∨
    ∃ (idx : Int) (e' : StructureError), program.HasFacet idx .blockEnd ∧
      program.blockBegin idx = .error e' := by
  cases h with
  | @neverOpened n name hcloses hbalanced =>
    cases hbegin : program.blockBegin n with
    | error e' => exact .inr ⟨n, e', Program.hasFacet_blockEnd.mpr hcloses, hbegin⟩
    | ok b =>
      obtain ⟨n', heq, hpaired⟩ := Program.blockBegin_eq_ok_iff.mp hbegin
      obtain rfl := Int.ofNat.inj heq
      exact absurd hpaired (not_paired_around (k := 0) hbalanced (Nat.zero_le b)
        (paired_iff.mp hpaired).1 (Nat.le_refl n))
  | @groupNeverClosed head n hend hencloses =>
    obtain ⟨-, visited, last, -, -, -, hlast⟩ := Program.error_of_groupBoundaries
      hencloses.begins (hencloses.groupBoundaries hend)
    rcases Program.error_of_blockEnd hlast with ⟨-, hkind⟩ | ⟨hfacet, -⟩
    · cases hkind
    · exact .inl ⟨last, _, hfacet, hlast⟩

/-- **A program is well formed if all its markers have partners.** -/
theorem Program.exists_groups_iff_partners {program : Program} :
    (∃ gs, program.groups = .ok gs) ↔
      (∀ idx, program.HasFacet idx .blockBegin → ∃ stop, program.blockEnd idx = .ok stop) ∧
      (∀ idx, program.HasFacet idx .blockEnd → ∃ start, program.blockBegin idx = .ok start) := by
  constructor
  · intro hgs
    have hbalanced := Program.isWellFormed_iff_balanced.mp (Program.isWellFormed_iff_groups.mpr hgs)
    constructor
    · intro idx hidx
      obtain ⟨n, rfl, -⟩ := id hidx
      obtain ⟨stop, hpaired⟩ :=
        exists_paired_of_opens hbalanced (Program.hasFacet_blockBegin.mp hidx)
      exact ⟨stop, Program.blockEnd_natCast_iff.mpr hpaired⟩
    · intro idx hidx
      obtain ⟨n, rfl, -⟩ := id hidx
      obtain ⟨start, hpaired⟩ :=
        exists_paired_of_closes hbalanced (Program.hasFacet_blockEnd.mp hidx)
      exact ⟨start, Program.blockBegin_eq_ok_iff.mpr ⟨n, rfl, hpaired⟩⟩
  · rintro ⟨hbegins, hends⟩
    cases hgs : program.groups with
    | ok gs => exact ⟨gs, rfl⟩
    | error e =>
      rcases (Program.blames_of_groups hgs).exists_error with
        ⟨idx, e', hfacet, he⟩ | ⟨idx, e', hfacet, he⟩
      · obtain ⟨stop, hstop⟩ := hbegins idx hfacet
        rw [he] at hstop
        cases hstop
      · obtain ⟨start, hstart⟩ := hends idx hfacet
        rw [he] at hstart
        cases hstart

/-! ## Depths as numbers of groups -/

/-- The groups of a program are counted by their boundaries. -/
theorem countP_groupOf {program : Program} {lists : List (List Nat)}
    (h : program.boundaryLists = .ok lists) (n : Nat) :
    (lists.map (groupOf program)).countP
        (fun g => g.head < (n : Int) ∧ (n : Int) < g.tail ∧ (n : Int) ∉ g.boundaries)
      = lists.countP (Surrounds n) := by
  rw [List.countP_map]
  refine List.countP_congr fun bs hbs => ?_
  obtain ⟨head, tail, hlisted⟩ := listed_of_mem h hbs
  simp only [Function.comp_apply, decide_eq_true_eq]
  rw [surrounds_iff hlisted.begins hlisted.ends, hlisted.head_groupOf, hlisted.tail_groupOf,
    boundaries_groupOf, natCast_mem_map, Int.ofNat_lt, Int.ofNat_lt]

/-- **All that find a program malformed agree**: the list of the groups, the list of the depths, and
the questions for the partners of the single markers. The two lists blame the same unopened end, and
the boundaries of a group that is blamed for being left open cannot be collected. Where a program is
well formed, the depth of an instruction is the number of groups it stands in. -/
theorem groups_iff_depths (program : Program) :
    ((∃ gs, program.groups = .ok gs) ↔ ∃ depths, program.depths = .ok depths) ∧
    ((∃ gs, program.groups = .ok gs) ↔
      (∀ idx, program.HasFacet idx .blockBegin → ∃ stop, program.blockEnd idx = .ok stop) ∧
      (∀ idx, program.HasFacet idx .blockEnd → ∃ start, program.blockBegin idx = .ok start)) ∧
    (∀ n name, program.groups = .error (.neverOpened n name) ↔
      program.depths = .error (.neverOpened n name)) ∧
    (∀ e, program.groups = .error e →
      (∃ n name, e = .neverOpened n name) ∨
      ∃ head count : Nat, e = .groupNeverClosed head ∧ program.depths = .error (.leftOpen count) ∧
        ∃ e', program.groupBoundaries head = .error e' ∧ e'.kind = .malformed) ∧
    (∀ gs depths, program.groups = .ok gs → program.depths = .ok depths →
      depths.length = program.size ∧
      ∀ n depth : Nat, depths[n]? = some depth → depth =
        gs.countP fun g => g.head < (n : Int) ∧ (n : Int) < g.tail ∧ (n : Int) ∉ g.boundaries) := by
  have hsame := program.sameOutcome
  refine ⟨hsame.exists_ok_iff, Program.exists_groups_iff_partners, hsame.neverOpened_iff, ?_, ?_⟩
  · intro e he
    have hblames := Program.blames_of_groups he
    rw [he] at hsame
    generalize program.depths = depths at hsame
    cases hsame with
    | neverOpened n name => exact .inl ⟨n, name, rfl⟩
    | leftOpen head count =>
      cases hblames with
      | groupNeverClosed hend hencloses =>
        exact .inr ⟨head, count + 1, rfl, rfl, _, hencloses.groupBoundaries hend, rfl⟩
  · intro gs depths hgs hdepths
    obtain ⟨lists, hlists⟩ :=
      exists_boundaryLists_iff.mpr (Program.isWellFormed_iff_groups.mpr ⟨gs, hgs⟩)
    rw [groups_of_boundaryLists hlists] at hgs
    cases hgs
    obtain ⟨levels, hlevels, hlength, hcount⟩ := depths_eq_countP hlists
    rw [hdepths] at hlevels
    cases hlevels
    refine ⟨hlength, fun n depth hdepth => ?_⟩
    rw [countP_groupOf hlists]
    exact hcount n depth hdepth

/-- An end of no group, a loop and a branch that are left open, and a branch in a loop. -/
theorem groups_iff_depths_strays :
    let stray : Program := ⟨[⟨.ofSimple "LoadInteger", [.int 1]⟩, ⟨.ofEnd "EndIf", []⟩]⟩
    let unended : Program := ⟨[⟨.ofBegin "BeginWhileLoop", []⟩, ⟨.ofBegin "BeginIf", []⟩,
      ⟨.ofDivider "BeginElse", []⟩]⟩
    let loop : Program := ⟨[⟨.ofBegin "BeginWhileLoop", []⟩, ⟨.ofBegin "BeginIf", []⟩,
      ⟨.ofDivider "BeginElse", []⟩, ⟨.ofSimple "LoadInteger", [.int 1]⟩, ⟨.ofEnd "EndIf", []⟩,
      ⟨.ofEnd "EndWhileLoop", []⟩]⟩
    stray.depths = .error (.neverOpened 1 "EndIf") ∧
      (∃ e, unended.groupBoundaries 1 = .error e ∧ e.kind = .malformed) ∧
      (∃ stop, loop.blockEnd 2 = .ok stop) ∧ ∃ depths, loop.depths = .ok depths ∧
        depths.length = loop.size ∧ depths[3]? = some 2 := by
  intro stray unended loop
  have hopen : unended.groups = .error (.groupNeverClosed 1) := rfl
  have hdepths : loop.depths = .ok [0, 1, 1, 2, 1, 0] := rfl
  obtain ⟨hsame, hpartners, -, -, hcount⟩ := groups_iff_depths loop
  obtain ⟨gs, hgs⟩ := hsame.mpr ⟨_, hdepths⟩
  refine ⟨((groups_iff_depths stray).2.2.1 1 "EndIf").mp rfl, ?_, ?_, _, hdepths, ?_, rfl⟩
  · rcases (groups_iff_depths unended).2.2.2.1 _ hopen with
      ⟨n, name, he⟩ | ⟨head, count, he, -, hwalk⟩
    · cases he
    · cases he
      exact hwalk
  · exact (hpartners.mp ⟨gs, hgs⟩).1 2 ⟨2, rfl, _, rfl, rfl⟩
  · exact (hcount gs _ hgs hdepths).1

end FlatCode
