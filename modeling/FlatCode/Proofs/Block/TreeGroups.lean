import FlatCode.Proofs.Block.Grammar

/-!
# The groups of a tree

The enumeration walks over the markers of a tree and lists the groups of the tree
(`closingBoundaries_items`). Where the boundaries are is read off the markers: the last boundaries
are the group ends in their order, the first ones are the group begins, and all boundaries together
are the places of the markers, each once.

* `isWellFormed_iff_derivable` — well-formed programs are those that the grammar derives, and the
  enumeration lists the groups of the derivation
-/

namespace FlatCode

/-! ## Places of markers -/

/-- The places of the markers of a kind in a list that starts at a place. -/
def placesOf (keep : Marker → Bool) : Nat → List Marker → List Nat
  | _, [] => []
  | idx, m :: rest =>
    if keep m then idx :: placesOf keep (idx + 1) rest else placesOf keep (idx + 1) rest

theorem placesOf_append (keep : Marker → Bool) (idx : Nat) (front back : List Marker) :
    placesOf keep idx (front ++ back)
      = placesOf keep idx front ++ placesOf keep (idx + front.length) back := by
  induction front generalizing idx with
  | nil => rfl
  | cons m front ih =>
    have hlength : idx + 1 + front.length = idx + (m :: front).length := by
      rw [List.length_cons]
      omega
    rw [List.cons_append, placesOf, placesOf, ih, hlength]
    by_cases hkeep : keep m
    · rw [if_pos hkeep, if_pos hkeep, List.cons_append]
    · rw [if_neg hkeep, if_neg hkeep]

theorem mem_placesOf {keep : Marker → Bool} {idx n : Nat} {ms : List Marker} :
    n ∈ placesOf keep idx ms ↔ idx ≤ n ∧ ∃ m, ms[n - idx]? = some m ∧ keep m = true := by
  induction ms generalizing idx with
  | nil => simp [placesOf]
  | cons m ms ih =>
    have hrest := @ih (idx + 1)
    have hhead : n ∈ placesOf keep idx (m :: ms) ↔
        n = idx ∧ keep m = true ∨ n ∈ placesOf keep (idx + 1) ms := by
      rw [placesOf]
      by_cases hkeep : keep m
      · simp [hkeep]
      · simp [hkeep]
    rw [hhead, hrest]
    constructor
    · rintro (⟨rfl, hkeep⟩ | ⟨hle, m', hm', hkeep⟩)
      · exact ⟨Nat.le_refl _, m, by simp, hkeep⟩
      · refine ⟨by omega, m', ?_, hkeep⟩
        rw [show n - idx = (n - (idx + 1)) + 1 by omega, List.getElem?_cons_succ]
        exact hm'
    · rintro ⟨hle, m', hm', hkeep⟩
      by_cases heq : n = idx
      · subst heq
        rw [Nat.sub_self, List.getElem?_cons_zero] at hm'
        obtain rfl := Option.some.inj hm'
        exact .inl ⟨rfl, hkeep⟩
      · rw [show n - idx = (n - (idx + 1)) + 1 by omega, List.getElem?_cons_succ] at hm'
        exact .inr ⟨by omega, m', hm', hkeep⟩

theorem pairwise_placesOf (keep : Marker → Bool) (idx : Nat) (ms : List Marker) :
    (placesOf keep idx ms).Pairwise (· < ·) := by
  induction ms generalizing idx with
  | nil => exact List.Pairwise.nil
  | cons m ms ih =>
    rw [placesOf]
    by_cases hkeep : keep m
    · rw [if_pos hkeep]
      refine List.Pairwise.cons (fun n hn => ?_) (ih (idx + 1))
      have hle := (mem_placesOf.mp hn).1
      omega
    · rw [if_neg hkeep]
      exact ih (idx + 1)

/-! ## The enumeration of a tree -/

theorem map_map_append {α ε : Type} (front back : List α) (x : Except ε (List α)) :
    (x.map (back ++ ·)).map (front ++ ·) = x.map (front ++ back ++ ·) := by
  cases x with
  | error e => rfl
  | ok rest =>
    simp only [Except.map]
    rw [List.append_assoc]

mutual

/-- **Over the markers of items the enumeration lists the groups of the items.** -/
theorem closingBoundaries_items : ∀ (t : Items) {instrs : List Instruction} (idx : Nat)
    (stack : List OpenGroup) (back : List Instruction),
    instrs.map Instruction.marker = t.markers →
    closingBoundaries idx stack (instrs ++ back)
      = (closingBoundaries (idx + t.markers.length) stack back).map (t.groups idx ++ ·)
  | .empty, instrs, idx, stack, back, h => by
    rw [Items.markers] at h ⊢
    obtain rfl := List.map_eq_nil_iff.mp h
    rw [Items.groups, List.nil_append, List.length_nil, Nat.add_zero]
    cases closingBoundaries idx stack back with
    | error e => rfl
    | ok lists => rfl
  | .plain rest, instrs, idx, stack, back, h => by
    rw [Items.markers] at h
    obtain ⟨instr, instrs, rfl, hinstr, hrest⟩ := List.map_eq_cons_iff.mp h
    have hwalk := closingBoundaries_items rest (idx + 1) stack back hrest
    have hlength : idx + 1 + rest.markers.length = idx + (Items.plain rest).markers.length := by
      rw [Items.markers, List.length_cons]
      omega
    rw [hlength] at hwalk
    rw [List.cons_append, closingBoundaries.eq_def]
    dsimp only
    rw [hinstr, Items.groups]
    exact hwalk
  | .group body more rest, instrs, idx, stack, back, h => by
    have hlength : idx + 1 + body.markers.length + more.markers.length + rest.markers.length
        = idx + (Items.group body more rest).markers.length := by
      rw [Items.markers, List.length_cons, List.length_append, List.length_append]
      omega
    rw [Items.markers] at h
    obtain ⟨instr, instrs, rfl, hinstr, htail⟩ := List.map_eq_cons_iff.mp h
    obtain ⟨inBody, behind, rfl, hbody, hbehind⟩ := List.map_eq_append_iff.mp htail
    obtain ⟨inMore, inRest, rfl, hmore, hrest⟩ := List.map_eq_append_iff.mp hbehind
    -- the begin puts the group on the stack, the body leaves it there, the sections take it off
    have hwalkBody := closingBoundaries_items body (idx + 1) (⟨idx, []⟩ :: stack)
      (inMore ++ (inRest ++ back)) hbody
    have hwalkMore := closingBoundaries_sections more (idx + 1 + body.markers.length) ⟨idx, []⟩
      stack (inRest ++ back) hmore
    have hwalkRest := closingBoundaries_items rest
      (idx + 1 + body.markers.length + more.markers.length) stack back hrest
    rw [hlength] at hwalkRest
    rw [List.cons_append, List.append_assoc, List.append_assoc, closingBoundaries.eq_def]
    dsimp only
    rw [hinstr, Items.groups]
    dsimp only
    rw [hwalkBody, hwalkMore, hwalkRest, map_map_append, map_map_append]
    simp only [List.append_assoc, List.cons_append, List.nil_append]

/-- Over the markers of sections it lists the groups inside, and then their own group. -/
theorem closingBoundaries_sections : ∀ (s : Sections) {instrs : List Instruction} (idx : Nat)
    (group : OpenGroup) (outer : List OpenGroup) (back : List Instruction),
    instrs.map Instruction.marker = s.markers →
    closingBoundaries idx (group :: outer) (instrs ++ back)
      = (closingBoundaries (idx + s.markers.length) outer back).map
          (s.groups idx ++ [group.head :: (group.dividers ++ s.boundaries idx)] ++ ·)
  | .close, instrs, idx, group, outer, back, h => by
    rw [Sections.markers] at h ⊢
    obtain ⟨instr, instrs, rfl, hinstr, htail⟩ := List.map_eq_cons_iff.mp h
    obtain rfl := List.map_eq_nil_iff.mp htail
    rw [List.cons_append, closingBoundaries.eq_def]
    dsimp only
    rw [hinstr, Sections.groups, Sections.boundaries]
    rfl
  | .divide body more, instrs, idx, group, outer, back, h => by
    have hlength : idx + 1 + body.markers.length + more.markers.length
        = idx + (Sections.divide body more).markers.length := by
      rw [Sections.markers, List.length_cons, List.length_append]
      omega
    rw [Sections.markers] at h
    obtain ⟨instr, instrs, rfl, hinstr, htail⟩ := List.map_eq_cons_iff.mp h
    obtain ⟨inBody, inMore, rfl, hbody, hmore⟩ := List.map_eq_append_iff.mp htail
    have hwalkBody := closingBoundaries_items body (idx + 1)
      (⟨group.head, group.dividers ++ [idx]⟩ :: outer) (inMore ++ back) hbody
    have hwalkMore := closingBoundaries_sections more (idx + 1 + body.markers.length)
      ⟨group.head, group.dividers ++ [idx]⟩ outer back hmore
    rw [hlength] at hwalkMore
    rw [List.cons_append, List.append_assoc, closingBoundaries.eq_def]
    dsimp only
    rw [hinstr, Sections.groups, Sections.boundaries]
    dsimp only
    rw [hwalkBody, hwalkMore, map_map_append]
    simp only [List.append_assoc, List.cons_append, List.nil_append]

end

/-! ## Where the boundaries are -/

/-- Whether a marker is a boundary. -/
def Marker.marks (m : Marker) : Bool := m.opens || m.closes

mutual

/-- The boundaries of the groups of items are the places of their markers. -/
theorem Items.count_groups : ∀ (t : Items) (idx n : Nat),
    (t.groups idx).flatten.count n = (placesOf Marker.marks idx t.markers).count n
  | .empty, idx, n => by
    rw [Items.groups, Items.markers]
    rfl
  | .plain rest, idx, n => by
    have hrest := Items.count_groups rest (idx + 1) n
    rw [Items.groups, Items.markers]
    exact hrest
  | .group body more rest, idx, n => by
    have hbody := Items.count_groups body (idx + 1) n
    have hmore := Sections.count_groups more (idx + 1 + body.markers.length) n
    have hrest := Items.count_groups rest
      (idx + 1 + body.markers.length + more.markers.length) n
    rw [Items.groups, Items.markers, placesOf, if_pos (by rfl), placesOf_append, placesOf_append]
    simp only [List.flatten_append, List.flatten_cons, List.count_append, List.count_cons,
      List.cons_append] at *
    omega

/-- The boundaries of a group behind its first, and those of the groups inside, are the places of
the markers of its sections. -/
theorem Sections.count_groups : ∀ (s : Sections) (idx n : Nat),
    (s.groups idx).flatten.count n + (s.boundaries idx).count n
      = (placesOf Marker.marks idx s.markers).count n
  | .close, idx, n => by
    rw [Sections.groups, Sections.boundaries, Sections.markers, placesOf, if_pos (by rfl)]
    simp [placesOf]
  | .divide body more, idx, n => by
    have hbody := Items.count_groups body (idx + 1) n
    have hmore := Sections.count_groups more (idx + 1 + body.markers.length) n
    rw [Sections.groups, Sections.boundaries, Sections.markers, placesOf, if_pos (by rfl),
      placesOf_append]
    simp only [List.flatten_append, List.count_append, List.count_cons] at *
    omega

end

/-- **Each marker is a boundary of one group, and no other place is.** -/
theorem Items.flatten_groups_perm (t : Items) (idx : Nat) :
    (t.groups idx).flatten.Perm (placesOf Marker.marks idx t.markers) :=
  List.perm_iff_count.mpr (t.count_groups idx)

/-- Whether a marker ends a group. -/
def Marker.endsGroup (m : Marker) : Bool := m.closes && !m.opens

theorem Sections.getLast?_cons_boundaries (n idx : Nat) (s : Sections) :
    (n :: s.boundaries idx).getLast? = (s.boundaries idx).getLast? := by
  cases s with
  | close =>
    rw [Sections.boundaries]
    rfl
  | divide body more =>
    rw [Sections.boundaries]
    exact List.getLast?_cons_cons

mutual

/-- **The groups of items are listed in the order of their ends.** -/
theorem Items.lasts_groups : ∀ (t : Items) (idx : Nat),
    (t.groups idx).map List.getLast? = (placesOf Marker.endsGroup idx t.markers).map some
  | .empty, idx => by
    rw [Items.groups, Items.markers]
    rfl
  | .plain rest, idx => by
    have hrest := Items.lasts_groups rest (idx + 1)
    rw [Items.groups, Items.markers]
    exact hrest
  | .group body more rest, idx => by
    have hbody := Items.lasts_groups body (idx + 1)
    have hmore := Sections.lasts_groups more (idx + 1 + body.markers.length)
    have hrest := Items.lasts_groups rest (idx + 1 + body.markers.length + more.markers.length)
    rw [Items.groups, Items.markers, placesOf, if_neg (by decide), placesOf_append,
      placesOf_append]
    simp only [List.map_append, List.map_cons, Sections.getLast?_cons_boundaries]
    rw [hbody, hrest, ← hmore]
    simp only [List.append_assoc, List.singleton_append]

theorem Sections.lasts_groups : ∀ (s : Sections) (idx : Nat),
    (s.groups idx).map List.getLast? ++ [(s.boundaries idx).getLast?]
      = (placesOf Marker.endsGroup idx s.markers).map some
  | .close, idx => by
    rw [Sections.groups, Sections.boundaries, Sections.markers, placesOf, if_pos (by rfl)]
    rfl
  | .divide body more, idx => by
    have hbody := Items.lasts_groups body (idx + 1)
    have hmore := Sections.lasts_groups more (idx + 1 + body.markers.length)
    rw [Sections.groups, Sections.boundaries, Sections.markers, placesOf, if_neg (by decide),
      placesOf_append]
    simp only [List.map_append, Sections.getLast?_cons_boundaries]
    rw [hbody, ← hmore]
    simp only [List.append_assoc]

end

/-! ## The groups of a well-formed program -/

/-- The boundaries of all groups, group by group in the order in which the groups end. -/
def Program.boundaryLists (program : Program) : Except StructureError (List (List Nat)) :=
  closingBoundaries 0 [] program.instructions

/-- **The groups of a program whose markers a tree derives are the groups of the tree.** -/
theorem boundaryLists_of_markers {program : Program} {t : Items}
    (h : t.markers = program.markers) : program.boundaryLists = .ok (t.groups 0) := by
  have hwalk := closingBoundaries_items t 0 [] [] h.symm
  have hend : closingBoundaries (0 + t.markers.length) [] [] = .ok [] := rfl
  rw [List.append_nil, hend] at hwalk
  rw [Program.boundaryLists, hwalk]
  simp only [Except.map]
  rw [List.append_nil]

theorem groups_of_markers {program : Program} {t : Items} (h : t.markers = program.markers) :
    program.groups = .ok ((t.groups 0).map (groupOf program)) := by
  have hlists := boundaryLists_of_markers h
  rw [Program.boundaryLists] at hlists
  rw [Program.groups_eq, hlists]
  rfl

theorem map_tail_groupOf (program : Program) (t : Items) :
    ((t.groups 0).map (groupOf program)).map BlockGroup.tail
      = (placesOf Marker.endsGroup 0 t.markers).map fun n : Nat => (n : Int) := by
  have htail : ∀ boundaries : List Nat, (groupOf program boundaries).tail
      = (boundaries.getLast?.map fun n : Nat => (n : Int)).getD 0 := by
    intro boundaries
    rw [BlockGroup.tail, boundaries_groupOf, List.getLast?_map]
  have hlasts := congrArg (List.map fun last : Option Nat =>
    (last.map fun n : Nat => (n : Int)).getD 0) (t.lasts_groups 0)
  rw [List.map_map, List.map_map] at hlasts
  rw [List.map_map]
  refine Eq.trans (List.map_congr_left fun boundaries _ => ?_) hlasts
  exact htail boundaries

theorem flatMap_boundaries_groupOf (program : Program) (lists : List (List Nat)) :
    (lists.map (groupOf program)).flatMap BlockGroup.boundaries
      = lists.flatten.map fun n : Nat => (n : Int) := by
  induction lists with
  | nil => rfl
  | cons boundaries lists ih =>
    rw [List.map_cons, List.flatMap_cons, ih, List.flatten_cons, List.map_append,
      boundaries_groupOf]

theorem nodup_placesOf (keep : Marker → Bool) (idx : Nat) (ms : List Marker) :
    (placesOf keep idx ms).Nodup :=
  (pairwise_placesOf keep idx ms).imp fun hlt => Nat.ne_of_lt hlt

theorem Operation.marks_iff {op : Operation} :
    op.marker.marks = true ↔ op.blockBegin = true ∨ op.blockEnd = true := by
  unfold Marker.marks Operation.marker
  rw [Marker.opens_ofFacets, Marker.closes_ofFacets, Bool.or_eq_true]

/-- The boundaries of all groups of a tree, as the indices of a program. -/
theorem mem_boundaries_iff {program : Program} {t : Items} (h : t.markers = program.markers)
    {idx : Int} : idx ∈ (t.groups 0).flatten.map (fun n : Nat => (n : Int)) ↔
      ∃ n : Nat, idx = n ∧ ∃ instr, program.instructions[n]? = some instr ∧
        (instr.operation.blockBegin = true ∨ instr.operation.blockEnd = true) := by
  rw [List.mem_map]
  constructor
  · rintro ⟨n, hn, rfl⟩
    rw [(t.flatten_groups_perm 0).mem_iff, mem_placesOf, h, Nat.sub_zero] at hn
    obtain ⟨-, m, hm, hmarks⟩ := hn
    obtain ⟨instr, hinstr, rfl⟩ := Program.exists_instruction_of_marker hm
    exact ⟨n, rfl, instr, hinstr, Operation.marks_iff.mp hmarks⟩
  · rintro ⟨n, rfl, instr, hinstr, hfacets⟩
    refine ⟨n, ?_, rfl⟩
    rw [(t.flatten_groups_perm 0).mem_iff, mem_placesOf, h, Nat.sub_zero]
    exact ⟨Nat.zero_le _, instr.marker, Program.marker_of_instruction hinstr,
      Operation.marks_iff.mpr hfacets⟩

/-- **Well-formed programs are those that the grammar derives, by one tree**, and the enumeration
lists the groups of this tree in the order of their ends: each marker is a boundary of one of them,
once, and nothing else is. It fails only for a marker that ends a block of no group, or a group that
is never ended. -/
theorem isWellFormed_iff_derivable (program : Program) :
    (program.isWellFormed = true ↔ ∃ t : Items, t.markers = program.markers) ∧
    (∀ t : Items, t.markers = program.markers →
      (∀ t' : Items, t'.markers = program.markers → t' = t) ∧
      ∃ gs, program.groups = .ok gs ∧ gs = (t.groups 0).map (groupOf program) ∧
        (gs.map BlockGroup.tail).Pairwise (· < ·) ∧
        (gs.flatMap BlockGroup.boundaries).Nodup ∧
        ∀ idx : Int, idx ∈ gs.flatMap BlockGroup.boundaries ↔
          ∃ n : Nat, idx = n ∧ ∃ instr, program.instructions[n]? = some instr ∧
            (instr.operation.blockBegin = true ∨ instr.operation.blockEnd = true)) ∧
    (∀ e, program.groups = .error e →
      (∃ n name, e = .neverOpened n name) ∨ ∃ n, e = .groupNeverClosed n) := by
  refine ⟨Program.isWellFormed_iff_balanced.trans balanced_iff_exists_items, ?_, ?_⟩
  · intro t ht
    refine ⟨fun t' ht' => Items.eq_of_markers (ht'.trans ht.symm), _, groups_of_markers ht, rfl,
      ?_, ?_, ?_⟩
    · rw [map_tail_groupOf, List.pairwise_map]
      exact (pairwise_placesOf _ _ _).imp fun hlt => Int.ofNat_lt.mpr hlt
    · rw [flatMap_boundaries_groupOf, List.Nodup, List.pairwise_map]
      have hnodup := (t.flatten_groups_perm 0).nodup_iff.mpr (nodup_placesOf _ _ _)
      exact hnodup.imp fun hne heq => hne (Int.ofNat.inj heq)
    · intro idx
      rw [flatMap_boundaries_groupOf]
      exact mem_boundaries_iff ht
  · intro e he
    rw [Program.groups_eq] at he
    cases hwalk : closingBoundaries 0 [] program.instructions with
    | error e' =>
      rw [hwalk] at he
      cases he
      exact error_of_closingBoundaries hwalk
    | ok lists =>
      rw [hwalk] at he
      cases he

/-- A branch in a loop. -/
theorem groups_nested :
    let nested : Program := ⟨[⟨.ofBegin "BeginWhileLoop", []⟩, ⟨.ofBegin "BeginIf", []⟩, ⟨.nop, []⟩,
      ⟨.ofDivider "BeginElse", []⟩, ⟨.ofEnd "EndIf", []⟩, ⟨.ofEnd "EndWhileLoop", []⟩]⟩
    nested.isWellFormed = true ∧
      ∃ gs, nested.groups = .ok gs ∧ gs.map BlockGroup.boundaries = [[1, 3, 4], [0, 5]] := by
  intro nested
  have htree : (Items.group (.group (.plain .empty) (.divide .empty .close) .empty) .close
      .empty).markers = nested.markers := rfl
  have h := isWellFormed_iff_derivable nested
  obtain ⟨-, gs, hgs, rfl, -⟩ := h.2.1 _ htree
  exact ⟨h.1.mpr ⟨_, htree⟩, _, hgs, rfl⟩

end FlatCode
