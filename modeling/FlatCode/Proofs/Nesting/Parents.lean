import FlatCode.Proofs.Nesting.Coverage

/-!
# The group around a group

The nesting of groups is read off the walk that finds the open block at each group begin: the group
around is the one that owns this block (`ParentOf`). It is the smallest group around, and going from
group to group takes as many steps as there are groups around the first one (`Climbs`).

* `Program.exists_groupNesting` — the nesting of a well-formed program, by the owners of the blocks
* `ParentOf.smallestAround` — the owner of the open block is the smallest group around
* `climbs_coverage` — going up from a group passes each group around it once
-/

namespace FlatCode

/-! ## Looking up -/

/-- What is looked up in a list is what the list has for the key, if it has one value for it. -/
theorem lookup_eq_some {α β : Type} [BEq α] [LawfulBEq α] {items : List (α × β)} {key : α}
    {value : β} (h : (key, value) ∈ items)
    (hunique : ∀ other, (key, other) ∈ items → other = value) : items.lookup key = some value := by
  induction items with
  | nil => cases h
  | cons item items ih =>
    obtain ⟨key', value'⟩ := item
    rw [List.lookup_cons]
    by_cases hkey : key = key'
    · subst hkey
      rw [beq_self_eq_true]
      exact congrArg some (hunique value' List.mem_cons_self)
    · rw [beq_false_of_ne hkey]
      refine ih ?_ fun other hother => hunique other (List.mem_cons_of_mem _ hother)
      exact (List.mem_cons.mp h).resolve_left fun heq => hkey (congrArg Prod.fst heq)

section WellFormed

variable {program : Program} {lists : List (List Nat)} {own bs : List Nat}
  {head tail block parent : Nat}

/-- Each block has its group as its owner, and no other. -/
theorem lookup_owners (hlists : program.boundaryLists = .ok lists) (hbs : bs ∈ lists)
    (h : Listed program bs parent tail) {e : Nat} (hmem : block ∈ bs)
    (hpaired : Paired program.markers block e) :
    (Program.owners ((lists.map (groupOf program)).map fun group =>
      (group, group.blockList))).lookup block = some (parent : Int) := by
  have howners : ∀ (b : Nat) (owner : Int),
      (b, owner) ∈ Program.owners ((lists.map (groupOf program)).map fun group =>
        (group, group.blockList)) ↔
      ∃ bs' ∈ lists, ∃ found ∈ (groupOf program bs').blockList,
        (found.head, (groupOf program bs').head) = (b, owner) := by
    intro b owner
    simp only [Program.owners, List.flatMap_map, List.mem_flatMap, List.mem_map]
  refine lookup_eq_some ((howners _ _).mpr ⟨bs, hbs, ⟨program, block, e⟩, ?_, ?_⟩)
    fun owner ho => ?_
  · exact (mem_blockList_iff h).mpr ⟨rfl, hmem, hpaired⟩
  · rw [h.head_groupOf]
  · obtain ⟨bs', hbs', found, hfound, heq⟩ := (howners _ _).mp ho
    obtain ⟨rfl, rfl⟩ := Prod.mk.inj heq
    obtain ⟨head', tail', hlisted⟩ := listed_of_mem hlists hbs'
    obtain ⟨-, hmem', -⟩ := (mem_blockList_iff hlisted).mp hfound
    obtain rfl := eq_of_mem_boundaries hlists hbs hbs' hmem hmem'
    exact h.head_groupOf program

/-- What stands around the begin of a group: nothing, or the group of the block that is open there. -/
inductive ParentOf (program : Program) (lists : List (List Nat)) (head : Nat) :
    Option Int → Prop where
  | none (hbalanced : Balanced (program.markers.take head)) : ParentOf program lists head none
  | some {bs : List Nat} {parent tail block : Nat} (hopens : OpensAt program.markers block head)
      (hbs : bs ∈ lists) (hlisted : Listed program bs parent tail) (hmem : block ∈ bs) :
      ParentOf program lists head (some (parent : Int))

/-- **The nesting of a well-formed program has an entry for each group**: every open block has an
owner. -/
theorem Program.exists_groupNesting (hlists : program.boundaryLists = .ok lists) :
    ∃ nesting, program.groupNesting = .ok nesting ∧
      nesting.map Prod.fst = placesOf Marker.beginsGroup 0 program.markers ∧
      ∀ entry ∈ nesting, ParentOf program lists entry.1 entry.2 := by
  obtain ⟨enclosing, hwalk, hheads, haround⟩ :=
    Program.exists_enclosingBlocks (exists_boundaryLists_iff.mp ⟨_, hlists⟩)
  rw [Program.groupNesting, groups_of_boundaryLists hlists]
  dsimp only
  rw [exists_groupsWithBlocks hlists (List.Perm.refl _)]
  dsimp only
  rw [hwalk]
  dsimp only
  rw [← hheads]
  refine exists_mapM_eq_ok fun entry hentry => ?_
  have hhead := begins_of_enclosingBlocks hheads hentry
  have henclosed := haround entry hentry
  obtain ⟨head, around⟩ := entry
  cases around with
  | none => exact ⟨_, rfl, rfl, .none henclosed⟩
  | some block =>
    obtain ⟨e, hpaired, -⟩ := OpensAt.exists_innermost hlists hhead henclosed
    obtain ⟨bs, hbs, parent, tail, hlisted, hmem⟩ :=
      exists_listed_of_opens hlists (OpensAt.begins henclosed)
    refine ⟨(head, some (parent : Int)), ?_, rfl, .some henclosed hbs hlisted hmem⟩
    dsimp only
    rw [lookup_owners hlists hbs hlisted hmem hpaired]

/-! ## The smallest group around -/

/-- Whether an answer is the head of the smallest other group with an index in its range, the index
being the head of a group, or none if there is no other. -/
inductive SmallestAround (groups : List BlockGroup) (head : Int) : Option Int → Prop where
  | none (h : ∀ group ∈ groups, head ∈ group.range → group.head = head) :
      SmallestAround groups head none
  | some {group : BlockGroup} (hgroup : group ∈ groups) (haround : head ∈ group.range)
      (hother : group.head ≠ head)
      (hsmallest : ∀ other ∈ groups, head ∈ other.range → other.head ≠ head → other ≠ group →
        group.size < other.size) : SmallestAround groups head (some group.head)

/-- A group begins at each group begin. -/
theorem exists_listed_of_begin (hlists : program.boundaryLists = .ok lists)
    (h : program.markers[head]? = some .groupBegin) :
    ∃ own ∈ lists, ∃ tail, Listed program own head tail := by
  obtain ⟨own, hown, head', tail, hlisted, hmem⟩ := exists_listed_of_opens hlists ⟨_, h, rfl⟩
  obtain rfl := hlisted.eq_of_begin_mem h hmem
  exact ⟨own, hown, tail, hlisted⟩

/-- **The group of the open block is the smallest one around.** -/
theorem ParentOf.smallestAround (hlists : program.boundaryLists = .ok lists) (hown : own ∈ lists)
    (h : Listed program own head tail) {answer : Option Int}
    (hparent : ParentOf program lists head answer) :
    SmallestAround (lists.map (groupOf program)) head answer := by
  have hother : ∀ {bs c d}, Listed program bs c d → (groupOf program bs).head ≠ head →
      bs ≠ own := by
    rintro bs c d h' hne rfl
    exact hne (h.head_groupOf program)
  cases hparent with
  | none hbalanced =>
    refine .none fun group hgroup haround => ?_
    obtain ⟨bs, hbs, rfl⟩ := List.mem_map.mp hgroup
    obtain ⟨c, d, h'⟩ := listed_of_mem hlists hbs
    by_contra hne
    rw [h'.mem_range, Int.ofNat_le, Int.ofNat_le] at haround
    obtain ⟨hlt, -⟩ := h.strictly hlists hown h' (hother h' hne) haround.1 haround.2
    exact not_spans_around (k := 0) hbalanced (Nat.zero_le c) hlt haround.2 h'.spans
  | @some bs parent last block hopens hbs hlisted hmem =>
    have hlt := hopens.lt
    have hwithin := hlisted.within block hmem
    obtain ⟨e, hpaired, -⟩ := hopens.exists_innermost hlists h.begin_marker
    have hle := hopens.le_of_paired hpaired
    have hend := (hlisted.within e (hlisted.partner_mem hmem hpaired)).2
    rw [← hlisted.head_groupOf program]
    refine .some (List.mem_map_of_mem hbs) ?_ ?_ ?_
    · rw [hlisted.mem_range]
      omega
    · rw [hlisted.head_groupOf]
      omega
    · rintro group hgroup haround hne hdifferent
      obtain ⟨bs', hbs', rfl⟩ := List.mem_map.mp hgroup
      obtain ⟨c, d, h'⟩ := listed_of_mem hlists hbs'
      rw [h'.mem_range, Int.ofNat_le, Int.ofNat_le,
        h.around_iff_of_opensAt hlists hown hopens hbs' h' (hother h' hne)] at haround
      -- the other group is around the open block too, and so around the group of it
      rcases inside_of_mem_range hlists hbs h' hlisted hmem haround.1 haround.2 with
        rfl | ⟨hlt', hgt'⟩
      · exact absurd rfl hdifferent
      · unfold BlockGroup.size
        rw [hlisted.head_groupOf, hlisted.tail_groupOf, h'.head_groupOf, h'.tail_groupOf]
        omega

/-! ## Going up -/

/-- How many times the nesting is looked up, from a group on, until it has no group around. -/
inductive Climbs (nesting : List (Nat × Option Int)) : Nat → Nat → Prop where
  | top {head : Nat} (h : nesting.lookup head = some none) : Climbs nesting head 1
  | up {head parent count : Nat} (h : nesting.lookup head = some (some (parent : Int)))
      (hrest : Climbs nesting parent count) : Climbs nesting head (count + 1)

/-- **Going up from a group passes each group around it once.** -/
theorem climbs_coverage (hlists : program.boundaryLists = .ok lists)
    {nesting : List (Nat × Option Int)}
    (hheads : nesting.map Prod.fst = placesOf Marker.beginsGroup 0 program.markers)
    (hparents : ∀ entry ∈ nesting, ParentOf program lists entry.1 entry.2)
    (h : program.markers[head]? = some .groupBegin) :
    Climbs nesting head (coverage program lists head) := by
  -- the group around begins in front
  induction head using Nat.strong_induction_on with
  | _ head ih =>
    obtain ⟨own, hown, tail, hlisted⟩ := exists_listed_of_begin hlists h
    have hmem : head ∈ nesting.map Prod.fst := by
      rw [hheads]
      exact mem_placesOf_beginsGroup.mpr h
    obtain ⟨⟨key, answer⟩, hentry, heq⟩ := List.mem_map.mp hmem
    obtain rfl : head = key := heq.symm
    have hlookup : nesting.lookup head = some answer := by
      refine lookup_eq_some hentry fun other hother => ?_
      have hnodup : (nesting.map Prod.fst).Nodup := by
        rw [hheads]
        exact nodup_placesOf _ _ _
      exact congrArg Prod.snd (List.inj_on_of_nodup_map hnodup hother hentry rfl)
    have hparent := hparents _ hentry
    cases hparent with
    | none hbalanced =>
      rw [coverage_of_balanced hlists hown hlisted hbalanced]
      exact .top hlookup
    | @some bs parent last block hopens hbs hlisted' hmem' =>
      rw [coverage_of_opensAt hlists hown hlisted hopens, hlisted'.coverage_eq hlists hbs hmem']
      have hlt := hopens.lt
      have hle := (hlisted'.within block hmem').1
      exact .up hlookup (ih parent (by omega) hlisted'.begin_marker)

end WellFormed

end FlatCode
