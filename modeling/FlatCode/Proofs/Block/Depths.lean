import FlatCode.Block.Depth
import FlatCode.Proofs.Block.Listed

/-!
# Depths and groups

The walk that counts open blocks gives each instruction of a tree the number of groups that it
stands in: the groups that begin in front of it and end behind it, without those of which it is a
boundary. A divider ends one block and begins the next, so it has the depth of its group.

* `depthsFrom_items` — the depths of the markers of a tree
* `Items.levels_eq` — a depth is the number of groups around the place
* `depths_eq_countP` — in a well-formed program the depths are the numbers of groups around
-/

namespace FlatCode

/-! ## Depths in a tree -/

mutual

/-- The depths of the instructions of a sequence of items, with the number of open blocks. -/
def Items.levels : Nat → Items → List Nat
  | _, .empty => []
  | depth, .plain rest => depth :: rest.levels depth
  | depth, .group body more rest =>
    depth :: (body.levels (depth + 1) ++ (more.levels depth ++ rest.levels depth))

/-- The depths of the instructions of the sections of a group. -/
def Sections.levels : Nat → Sections → List Nat
  | depth, .close => [depth]
  | depth, .divide body more => depth :: (body.levels (depth + 1) ++ more.levels depth)

end

mutual

theorem Items.length_levels : ∀ (t : Items) (depth : Nat),
    (t.levels depth).length = t.markers.length
  | .empty, depth => by
    rw [Items.levels, Items.markers]
    rfl
  | .plain rest, depth => by
    rw [Items.levels, Items.markers, List.length_cons, List.length_cons, Items.length_levels rest]
  | .group body more rest, depth => by
    simp [Items.levels, Items.markers, Items.length_levels body, Sections.length_levels more,
      Items.length_levels rest]

theorem Sections.length_levels : ∀ (s : Sections) (depth : Nat),
    (s.levels depth).length = s.markers.length
  | .close, depth => by
    rw [Sections.levels, Sections.markers]
    rfl
  | .divide body more, depth => by
    simp [Sections.levels, Sections.markers, Items.length_levels body, Sections.length_levels more]

end

/-- A step of the walk: the level of a marker is counted without the block that it closes, and the
block that it opens is open behind it. -/
theorem depthsFrom_cons {instr : Instruction} {m : Marker} (h : instr.marker = m) (idx level : Nat)
    (rest : List Instruction) :
    depthsFrom idx (if m.closes then level + 1 else level) (instr :: rest)
      = (depthsFrom (idx + 1) (if m.opens then level + 1 else level) rest).map (level :: ·) := by
  rw [depthsFrom, h]
  cases m with
  | plain => rfl
  | groupBegin => rfl
  | divider => rfl
  | groupEnd => rfl

mutual

/-- **Over the markers of items the walk gives the depths of the items.** -/
theorem depthsFrom_items : ∀ (t : Items) {instrs : List Instruction} (idx depth : Nat)
    (back : List Instruction), instrs.map Instruction.marker = t.markers →
    depthsFrom idx depth (instrs ++ back)
      = (depthsFrom (idx + t.markers.length) depth back).map (t.levels depth ++ ·)
  | .empty, instrs, idx, depth, back, h => by
    rw [Items.markers] at h ⊢
    obtain rfl := List.map_eq_nil_iff.mp h
    rw [Items.levels, List.nil_append, List.length_nil, Nat.add_zero]
    cases depthsFrom idx depth back with
    | error e => rfl
    | ok levels => rfl
  | .plain rest, instrs, idx, depth, back, h => by
    rw [Items.markers] at h
    obtain ⟨instr, instrs, rfl, hinstr, hrest⟩ := List.map_eq_cons_iff.mp h
    have hwalk := depthsFrom_items rest (idx + 1) depth back hrest
    have hlength : idx + 1 + rest.markers.length = idx + (Items.plain rest).markers.length := by
      rw [Items.markers, List.length_cons]
      omega
    rw [hlength] at hwalk
    have hstep : depthsFrom idx depth (instr :: (instrs ++ back))
        = (depthsFrom (idx + 1) depth (instrs ++ back)).map (depth :: ·) :=
      depthsFrom_cons hinstr idx depth _
    rw [List.cons_append, hstep, hwalk, Items.levels]
    exact map_map_append [depth] _ _
  | .group body more rest, instrs, idx, depth, back, h => by
    have hlength : idx + 1 + body.markers.length + more.markers.length + rest.markers.length
        = idx + (Items.group body more rest).markers.length := by
      rw [Items.markers, List.length_cons, List.length_append, List.length_append]
      omega
    rw [Items.markers] at h
    obtain ⟨instr, instrs, rfl, hinstr, htail⟩ := List.map_eq_cons_iff.mp h
    obtain ⟨inBody, behind, rfl, hbody, hbehind⟩ := List.map_eq_append_iff.mp htail
    obtain ⟨inMore, inRest, rfl, hmore, hrest⟩ := List.map_eq_append_iff.mp hbehind
    -- the begin opens a block, which the sections close
    have hwalkBody := depthsFrom_items body (idx + 1) (depth + 1) (inMore ++ (inRest ++ back)) hbody
    have hwalkMore := depthsFrom_sections more (idx + 1 + body.markers.length) depth
      (inRest ++ back) hmore
    have hwalkRest := depthsFrom_items rest
      (idx + 1 + body.markers.length + more.markers.length) depth back hrest
    rw [hlength] at hwalkRest
    have hstep : depthsFrom idx depth (instr :: (inBody ++ (inMore ++ (inRest ++ back))))
        = (depthsFrom (idx + 1) (depth + 1) (inBody ++ (inMore ++ (inRest ++ back)))).map
          (depth :: ·) := depthsFrom_cons hinstr idx depth _
    rw [List.cons_append, List.append_assoc, List.append_assoc, hstep, hwalkBody, hwalkMore,
      hwalkRest, map_map_append, map_map_append, Items.levels]
    refine (map_map_append [depth] _ _).trans ?_
    simp only [List.append_assoc, List.cons_append, List.nil_append]

/-- Over the markers of sections the walk gives the depths of the sections. -/
theorem depthsFrom_sections : ∀ (s : Sections) {instrs : List Instruction} (idx depth : Nat)
    (back : List Instruction), instrs.map Instruction.marker = s.markers →
    depthsFrom idx (depth + 1) (instrs ++ back)
      = (depthsFrom (idx + s.markers.length) depth back).map (s.levels depth ++ ·)
  | .close, instrs, idx, depth, back, h => by
    rw [Sections.markers] at h ⊢
    obtain ⟨instr, instrs, rfl, hinstr, hrest⟩ := List.map_eq_cons_iff.mp h
    obtain rfl := List.map_eq_nil_iff.mp hrest
    rw [Sections.levels]
    exact depthsFrom_cons hinstr idx depth back
  | .divide body more, instrs, idx, depth, back, h => by
    have hlength : idx + 1 + body.markers.length + more.markers.length
        = idx + (Sections.divide body more).markers.length := by
      rw [Sections.markers, List.length_cons, List.length_append]
      omega
    rw [Sections.markers] at h
    obtain ⟨instr, instrs, rfl, hinstr, htail⟩ := List.map_eq_cons_iff.mp h
    obtain ⟨inBody, inMore, rfl, hbody, hmore⟩ := List.map_eq_append_iff.mp htail
    have hwalkBody := depthsFrom_items body (idx + 1) (depth + 1) (inMore ++ back) hbody
    have hwalkMore := depthsFrom_sections more (idx + 1 + body.markers.length) depth back hmore
    rw [hlength] at hwalkMore
    have hstep : depthsFrom idx (depth + 1) (instr :: (inBody ++ (inMore ++ back)))
        = (depthsFrom (idx + 1) (depth + 1) (inBody ++ (inMore ++ back))).map (depth :: ·) :=
      depthsFrom_cons hinstr idx depth _
    rw [List.cons_append, List.append_assoc, hstep, hwalkBody, hwalkMore, map_map_append,
      Sections.levels]
    exact map_map_append [depth] _ _

end

/-- The depths of a program whose markers a tree derives are those of the tree. -/
theorem depths_of_markers {program : Program} {t : Items} (h : t.markers = program.markers) :
    program.depths = .ok (t.levels 0) := by
  have hwalk := depthsFrom_items t 0 0 [] h.symm
  have hend : depthsFrom (0 + t.markers.length) 0 [] = .ok [] := rfl
  rw [List.append_nil, hend] at hwalk
  rw [Program.depths, hwalk]
  simp only [Except.map]
  rw [List.append_nil]

/-! ## Groups around a place -/

/-- Whether a place is inside of a group: behind its first boundary, in front of its last one, and
no boundary itself. -/
def Surrounds (n : Nat) (bs : List Nat) : Bool :=
  bs.head?.any (fun head => head < n) && bs.getLast?.any (fun tail => n < tail) && !bs.contains n

theorem surrounds_iff {n head tail : Nat} {bs : List Nat} (hhead : bs.head? = some head)
    (htail : bs.getLast? = some tail) :
    Surrounds n bs = true ↔ head < n ∧ n < tail ∧ n ∉ bs := by
  simp [Surrounds, hhead, htail, and_assoc]

/-- A group with all boundaries on one side is not around. -/
theorem not_surrounds {n : Nat} {bs : List Nat} (h : (∀ m ∈ bs, n ≤ m) ∨ ∀ m ∈ bs, m ≤ n) :
    ¬Surrounds n bs = true := by
  intro hsurrounds
  rw [Surrounds, Bool.and_eq_true, Bool.and_eq_true, Option.any_eq_true, Option.any_eq_true]
    at hsurrounds
  obtain ⟨⟨⟨head, hhead, hlt⟩, tail, htail, hlt'⟩, -⟩ := hsurrounds
  rw [decide_eq_true_eq] at hlt hlt'
  rcases h with hbehind | hfront
  · have hle := hbehind head (List.mem_of_head? hhead)
    omega
  · have hle := hfront tail (List.mem_of_getLast? htail)
    omega

theorem countP_surrounds_eq_zero {n : Nat} {lists : List (List Nat)}
    (h : (∀ bs ∈ lists, ∀ m ∈ bs, n ≤ m) ∨ ∀ bs ∈ lists, ∀ m ∈ bs, m ≤ n) :
    lists.countP (Surrounds n) = 0 := by
  rw [List.countP_eq_zero]
  intro bs hbs
  refine not_surrounds ?_
  rcases h with hbehind | hfront
  · exact .inl (hbehind bs hbs)
  · exact .inr (hfront bs hbs)

/-! ## Where the boundaries of a tree are -/

theorem bounds_of_mem_placesOf {keep : Marker → Bool} {idx n : Nat} {ms : List Marker}
    (h : n ∈ placesOf keep idx ms) : idx ≤ n ∧ n < idx + ms.length := by
  obtain ⟨hle, m, hm, -⟩ := mem_placesOf.mp h
  obtain ⟨hlt, -⟩ := List.getElem?_eq_some_iff.mp hm
  omega

theorem Items.bounds (t : Items) (idx : Nat) {bs : List Nat} (hbs : bs ∈ t.groups idx) {n : Nat}
    (hn : n ∈ bs) : idx ≤ n ∧ n < idx + t.markers.length :=
  bounds_of_mem_placesOf ((t.flatten_groups_perm idx).mem_iff.mp
    (List.mem_flatten.mpr ⟨bs, hbs, hn⟩))

theorem Sections.mem_placesOf (s : Sections) (idx : Nat) {n : Nat}
    (h : n ∈ (s.groups idx).flatten ∨ n ∈ s.boundaries idx) :
    n ∈ placesOf Marker.marks idx s.markers := by
  have hcount := s.count_groups idx n
  rw [← List.count_pos_iff, ← hcount]
  rcases h with h | h
  · have hpos := List.count_pos_iff.mpr h
    omega
  · have hpos := List.count_pos_iff.mpr h
    omega

theorem Sections.bounds (s : Sections) (idx : Nat) {bs : List Nat} (hbs : bs ∈ s.groups idx)
    {n : Nat} (hn : n ∈ bs) : idx ≤ n ∧ n < idx + s.markers.length :=
  bounds_of_mem_placesOf (s.mem_placesOf idx (.inl (List.mem_flatten.mpr ⟨bs, hbs, hn⟩)))

theorem Sections.bounds_boundaries (s : Sections) (idx : Nat) {n : Nat}
    (hn : n ∈ s.boundaries idx) : idx ≤ n ∧ n < idx + s.markers.length :=
  bounds_of_mem_placesOf (s.mem_placesOf idx (.inr hn))

theorem Sections.not_mem_boundaries (s : Sections) (idx : Nat) {n : Nat} (hn : n < idx) :
    n ∉ s.boundaries idx := by
  intro hmem
  have hbounds := s.bounds_boundaries idx hmem
  omega

/-- The last boundary of sections is at their end. -/
theorem Sections.exists_last : ∀ (s : Sections) (idx : Nat),
    ∃ last, (s.boundaries idx).getLast? = some last ∧ last + 1 = idx + s.markers.length
  | .close, idx => ⟨idx, rfl, by rw [Sections.markers]; rfl⟩
  | .divide body more, idx => by
    obtain ⟨last, hlast, hend⟩ := Sections.exists_last more (idx + 1 + body.markers.length)
    refine ⟨last, ?_, ?_⟩
    · rw [Sections.boundaries, Sections.getLast?_cons_boundaries, hlast]
    · rw [Sections.markers, List.length_cons, List.length_append]
      omega

/-! ## A depth is a number of groups -/

/-- Where a group is around: between its ends, and not at a boundary. -/
theorem surrounds_cons_boundaries {n head idx : Nat} {s : Sections} :
    Surrounds n (head :: s.boundaries idx) = true ↔
      head < n ∧ n < idx + s.markers.length ∧ n ∉ s.boundaries idx := by
  obtain ⟨last, hlast, hend⟩ := s.exists_last idx
  have htail : (head :: s.boundaries idx).getLast? = some last := by
    rw [Sections.getLast?_cons_boundaries, hlast]
  rw [surrounds_iff rfl htail, List.mem_cons, not_or]
  constructor
  · rintro ⟨hlt, hlt', -, hmem⟩
    exact ⟨hlt, by omega, hmem⟩
  · rintro ⟨hlt, hlt', hmem⟩
    -- the last boundary is a boundary too
    have hne : n ≠ last := fun heq => hmem (heq ▸ List.mem_of_getLast? hlast)
    exact ⟨hlt, by omega, by omega, hmem⟩

/-- The groups of items are around no place outside of the items. -/
theorem Items.countP_eq_zero (t : Items) (idx : Nat) {n : Nat}
    (h : n ≤ idx ∨ idx + t.markers.length ≤ n) : (t.groups idx).countP (Surrounds n) = 0 := by
  refine countP_surrounds_eq_zero ?_
  rcases h with hfront | hbehind
  · refine .inl fun bs hbs m hm => ?_
    have hbounds := t.bounds idx hbs hm
    omega
  · refine .inr fun bs hbs m hm => ?_
    have hbounds := t.bounds idx hbs hm
    omega

theorem Sections.countP_eq_zero (s : Sections) (idx : Nat) {n : Nat}
    (h : n ≤ idx ∨ idx + s.markers.length ≤ n) : (s.groups idx).countP (Surrounds n) = 0 := by
  refine countP_surrounds_eq_zero ?_
  rcases h with hfront | hbehind
  · refine .inl fun bs hbs m hm => ?_
    have hbounds := s.bounds idx hbs hm
    omega
  · refine .inr fun bs hbs m hm => ?_
    have hbounds := s.bounds idx hbs hm
    omega

mutual

/-- **A depth is the number of groups around the place**, above that of the blocks that are open in
front of the items. -/
theorem Items.levels_eq : ∀ (t : Items) (idx depth : Nat) {n place level : Nat},
    (t.levels depth)[n]? = some level → idx + n = place →
    level = depth + (t.groups idx).countP (Surrounds place)
  | .empty, idx, depth, n, place, level, h, _ => by
    rw [Items.levels] at h
    cases h
  | .plain rest, idx, depth, n, place, level, h, hplace => by
    rw [Items.levels] at h
    rw [Items.groups]
    cases n with
    | zero =>
      cases h
      rw [rest.countP_eq_zero (idx + 1) (.inl (by omega))]
      rfl
    | succ n => exact Items.levels_eq rest (idx + 1) depth h (by omega)
  | .group body more rest, idx, depth, n, place, level, h, hplace => by
    rw [Items.levels] at h
    rw [Items.groups, List.countP_append, List.countP_append, List.countP_cons]
    simp only [surrounds_cons_boundaries]
    cases n with
    | zero =>
      -- the begin of the group
      cases h
      rw [body.countP_eq_zero (idx + 1) (.inl (by omega)), more.countP_eq_zero _ (.inl (by omega)),
        rest.countP_eq_zero _ (.inl (by omega)), if_neg (by omega)]
      rfl
    | succ n =>
      rw [List.getElem?_cons_succ, List.getElem?_append, List.getElem?_append,
        Items.length_levels, Sections.length_levels] at h
      by_cases hbody : n < body.markers.length
      · -- in the first body, around which the group is
        rw [if_pos hbody] at h
        have hlevel := Items.levels_eq body (idx + 1) (depth + 1) h
          (show idx + 1 + n = place by omega)
        have hnotin : place ∉ more.boundaries (idx + 1 + body.markers.length) :=
          more.not_mem_boundaries _ (by omega)
        rw [more.countP_eq_zero _ (.inl (by omega)), rest.countP_eq_zero _ (.inl (by omega)),
          if_pos ⟨by omega, by omega, hnotin⟩]
        omega
      · rw [if_neg hbody] at h
        rw [body.countP_eq_zero (idx + 1) (.inr (by omega))]
        by_cases hmore : n - body.markers.length < more.markers.length
        · -- in the sections, which may be at a boundary of the group
          rw [if_pos hmore] at h
          have hlevel := Sections.levels_eq more (idx + 1 + body.markers.length) depth h
            (show idx + 1 + body.markers.length + (n - body.markers.length) = place by omega)
          rw [rest.countP_eq_zero _ (.inl (by omega))]
          by_cases hmem : place ∈ more.boundaries (idx + 1 + body.markers.length)
          · rw [if_pos hmem] at hlevel
            rw [if_neg fun hin => hin.2.2 hmem]
            omega
          · rw [if_neg hmem] at hlevel
            rw [if_pos ⟨by omega, by omega, hmem⟩]
            omega
        · -- behind the group
          rw [if_neg hmore] at h
          have hlevel := Items.levels_eq rest
            (idx + 1 + body.markers.length + more.markers.length) depth h
            (show _ + (n - body.markers.length - more.markers.length) = place by omega)
          rw [more.countP_eq_zero _ (.inr (by omega)), if_neg (by omega)]
          omega

theorem Sections.levels_eq : ∀ (s : Sections) (idx depth : Nat) {n place level : Nat},
    (s.levels depth)[n]? = some level → idx + n = place →
    level + (if place ∈ s.boundaries idx then 1 else 0)
      = depth + 1 + (s.groups idx).countP (Surrounds place)
  | .close, idx, depth, n, place, level, h, hplace => by
    rw [Sections.levels] at h
    cases n with
    | zero =>
      cases h
      subst hplace
      exact congrArg (depth + ·) (if_pos (List.mem_singleton_self idx))
    | succ n => cases h
  | .divide body more, idx, depth, n, place, level, h, hplace => by
    rw [Sections.levels] at h
    rw [Sections.groups, Sections.boundaries, List.countP_append]
    cases n with
    | zero =>
      cases h
      subst hplace
      rw [body.countP_eq_zero (idx + 1) (.inl (by omega)), more.countP_eq_zero _ (.inl (by omega))]
      exact congrArg (depth + ·) (if_pos List.mem_cons_self)
    | succ n =>
      rw [List.getElem?_cons_succ, List.getElem?_append, Items.length_levels] at h
      have hmem : place ∈ idx :: more.boundaries (idx + 1 + body.markers.length) ↔
          place ∈ more.boundaries (idx + 1 + body.markers.length) := by
        rw [List.mem_cons, or_iff_right (by omega)]
      simp only [hmem]
      by_cases hbody : n < body.markers.length
      · rw [if_pos hbody] at h
        have hlevel := Items.levels_eq body (idx + 1) (depth + 1) h
          (show idx + 1 + n = place by omega)
        rw [more.countP_eq_zero _ (.inl (by omega)), if_neg (more.not_mem_boundaries _ (by omega))]
        omega
      · rw [if_neg hbody] at h
        have hlevel := Sections.levels_eq more (idx + 1 + body.markers.length) depth h
          (show idx + 1 + body.markers.length + (n - body.markers.length) = place by omega)
        rw [body.countP_eq_zero (idx + 1) (.inr (by omega))]
        omega

end

/-- **The depths of a well-formed program are the numbers of groups around**: there is one for each
instruction. -/
theorem depths_eq_countP {program : Program} {lists : List (List Nat)}
    (h : program.boundaryLists = .ok lists) :
    ∃ levels, program.depths = .ok levels ∧ levels.length = program.size ∧
      ∀ (n level : Nat), levels[n]? = some level → level = lists.countP (Surrounds n) := by
  obtain ⟨t, ht, rfl⟩ := exists_items_of_boundaryLists h
  refine ⟨t.levels 0, depths_of_markers ht, ?_, fun n level hlevel => ?_⟩
  · rw [Items.length_levels, ht, Program.length_markers]
  · have hcount := t.levels_eq 0 0 hlevel (Nat.zero_add n)
    rwa [Nat.zero_add] at hcount

end FlatCode
