import FlatCode.Nesting.Enclosing
import FlatCode.Proofs.Block.OpenGroups
import FlatCode.Proofs.Block.Partition

/-!
# The block around a group

The walk that looks for the block around each group keeps the heads of the open blocks on a stack,
so what it answers with is the block that is open at the group (`EnclosedBy`). In a well-formed
program each block that begins also ends, and belongs to one group: the blocks of all groups are the
paired markers (`mem_allBlocks_iff`). So the open block is a block of a group, and of the blocks with
the group in their body it is the smallest (`IsInnermost`).

* `exists_enclosingFrom` — the walk keeps the open blocks, and fails on balanced markers nowhere
* `exists_groupsWithBlocks` — the blocks of all groups can be built
* `exists_innermost_iff` — the block that is found around a group is the smallest one
-/

namespace FlatCode

/-! ## The walk with the open blocks -/

/-- Whether a block is open at a place, and the innermost one, or none is. -/
def EnclosedBy (ms : List Marker) (n : Nat) : Option Nat → Prop
  | none => Balanced (ms.take n)
  | some block => OpensAt ms block n

theorem OpenAt.enclosedBy {ms : List Marker} {n : Nat} {places : List (Nat × Nat)}
    (h : OpenAt ms n places) : EnclosedBy ms n (places.map Prod.snd).head? := by
  cases h with
  | nil hbalanced => exact hbalanced
  | cons hgroup hblock houter => exact hblock

/-- **The walk finds the open block at each group begin.** -/
theorem exists_enclosingFrom {ms : List Marker} {idx last : Nat} {places : List (Nat × Nat)}
    {instrs : List Instruction} (hdrop : ms.drop idx = instrs.map Instruction.marker)
    (hopen : OpenAt ms idx places)
    (hlevel : depthAfter places.length (instrs.map Instruction.marker) = some last) :
    ∃ enclosing, enclosingFrom idx (places.map Prod.snd) instrs = .ok enclosing ∧
      enclosing.map Prod.fst = placesOf Marker.beginsGroup idx (instrs.map Instruction.marker) ∧
      ∀ entry ∈ enclosing, EnclosedBy ms entry.1 entry.2 := by
  induction instrs generalizing idx places with
  | nil => exact ⟨[], rfl, rfl, by simp⟩
  | cons instr rest ih =>
    rw [List.map_cons] at hdrop hlevel
    have hrest := drop_of_drop_cons hdrop
    have hn := getElem?_of_drop_cons hdrop
    rw [enclosingFrom.eq_def, List.map_cons, placesOf]
    dsimp only
    cases hm : instr.marker with
    | plain =>
      rw [hm] at hn hlevel
      exact ih hrest (hopen.plain hn) hlevel
    | groupBegin =>
      rw [hm] at hn hlevel
      obtain ⟨enclosing, hwalk, hheads, haround⟩ := ih hrest (hopen.groupBegin hn) hlevel
      rw [List.map_cons] at hwalk
      refine ⟨(idx, (places.map Prod.snd).head?) :: enclosing, ?_, ?_, ?_⟩
      · dsimp only
        rw [hwalk]
        rfl
      · rw [List.map_cons, hheads]
        rfl
      · exact List.forall_mem_cons.mpr ⟨hopen.enclosedBy, haround⟩
    | divider =>
      rw [hm] at hn hlevel
      cases hopen with
      | nil hbalanced => cases hlevel
      | cons hgroup hblock houter =>
        exact ih hrest ((OpenAt.cons hgroup hblock houter).divider hn) hlevel
    | groupEnd =>
      rw [hm] at hn hlevel
      cases hopen with
      | nil hbalanced => cases hlevel
      | cons hgroup hblock houter =>
        exact ih hrest ((OpenAt.cons hgroup hblock houter).groupEnd hn) hlevel

theorem mem_placesOf_beginsGroup {ms : List Marker} {n : Nat} :
    n ∈ placesOf Marker.beginsGroup 0 ms ↔ ms[n]? = some .groupBegin := by
  rw [mem_placesOf, Nat.sub_zero]
  constructor
  · rintro ⟨-, m, hm, hbegins⟩
    rw [hm]
    cases m with
    | groupBegin => rfl
    | plain | divider | groupEnd => cases hbegins
  · intro hm
    exact ⟨Nat.zero_le n, _, hm, rfl⟩

/-- The walk over a well-formed program answers, with one entry for each group begin. -/
theorem Program.exists_enclosingBlocks {program : Program} (h : program.isWellFormed = true) :
    ∃ enclosing, program.enclosingBlocks = .ok enclosing ∧
      enclosing.map Prod.fst = placesOf Marker.beginsGroup 0 program.markers ∧
      ∀ entry ∈ enclosing, EnclosedBy program.markers entry.1 entry.2 :=
  exists_enclosingFrom rfl (openAt_zero _) (Program.isWellFormed_iff_balanced.mp h)

/-! ## The blocks of a chain -/

section Chained

variable {program : Program} {ms : List Marker} {b c d : Nat} {rest : List Nat}

theorem map_head_blocksBetween (program : Program) (b : Nat) (rest : List Nat) :
    (blocksBetween program b rest).map Block.head = (b :: rest).dropLast := by
  induction rest generalizing b with
  | nil => rfl
  | cons e rest ih =>
    rw [blocksBetween, List.map_cons, ih, List.dropLast_cons_cons]

theorem of_mem_blocksBetween {block : Block} (h : block ∈ blocksBetween program b rest) :
    block.program = program ∧ block.tail ∈ rest := by
  induction rest generalizing b with
  | nil => cases h
  | cons e rest ih =>
    rcases List.mem_cons.mp h with rfl | h
    · exact ⟨rfl, List.mem_cons_self⟩
    · obtain ⟨hprogram, htail⟩ := ih h
      exact ⟨hprogram, List.mem_cons_of_mem _ htail⟩

/-- **The blocks of a group begin at its boundaries and end at the partners.** -/
theorem Chained.mem_blocksBetween (h : Chained ms b rest) :
    Block.mk program c d ∈ blocksBetween program b rest ↔ c ∈ b :: rest ∧ Paired ms c d := by
  induction h with
  | @last b e hpaired hend =>
    have hnot : ¬Paired ms e d := by
      intro hother
      obtain ⟨-, ⟨m, hm, hopens⟩, -⟩ := paired_iff.mp hother
      rw [hend] at hm
      cases hm
      cases hopens
    simp only [blocksBetween, Block.mk.injEq, true_and, List.mem_cons,
      List.not_mem_nil, or_false]
    constructor
    · rintro ⟨rfl, rfl⟩
      exact ⟨.inl rfl, hpaired⟩
    · rintro ⟨rfl | rfl, hother⟩
      · exact ⟨rfl, hother.unique hpaired⟩
      · exact absurd hother hnot
  | @next b e rest hpaired hdivider hrest ih =>
    rw [blocksBetween, List.mem_cons, ih, Block.mk.injEq]
    constructor
    · rintro (⟨-, rfl, rfl⟩ | ⟨hc, hother⟩)
      · exact ⟨List.mem_cons_self, hpaired⟩
      · exact ⟨List.mem_cons_of_mem _ hc, hother⟩
    · rintro ⟨hc, hother⟩
      rcases List.mem_cons.mp hc with rfl | hc
      · exact .inl ⟨rfl, rfl, hother.unique hpaired⟩
      · exact .inr ⟨hc, hother⟩

/-- The partner of a boundary is a boundary. -/
theorem Chained.partner_mem (h : Chained ms b rest) (hc : c ∈ b :: rest) (hpaired : Paired ms c d) :
    d ∈ rest := by
  have hblock : Block.mk ⟨[]⟩ c d ∈ blocksBetween ⟨[]⟩ b rest :=
    h.mem_blocksBetween.mpr ⟨hc, hpaired⟩
  exact (of_mem_blocksBetween hblock).2

end Chained

/-! ## The blocks of all groups -/

/-- The blocks of a group, as far as they can be built. -/
def BlockGroup.blockList (group : BlockGroup) : List Block :=
  match group.blocks with
  | .ok blocks => blocks
  | .error _ => []

/-- The blocks of some groups. -/
def allBlocks (groups : List BlockGroup) : List Block := groups.flatMap BlockGroup.blockList

section WellFormed

variable {program : Program} {lists : List (List Nat)} {groups : List BlockGroup}
  {bs : List Nat} {head tail : Nat}

theorem Listed.blocks (h : Listed program bs head tail) :
    ∃ rest, bs = head :: rest ∧ Chained program.markers head rest ∧
      (groupOf program bs).blocks = .ok (blocksBetween program head rest) ∧
      (groupOf program bs).blockList = blocksBetween program head rest := by
  obtain ⟨rest, rfl, hchained⟩ := h.exists_chained
  have hblocks := blocks_groupOf h.chainedGroup
  refine ⟨rest, rfl, hchained, hblocks, ?_⟩
  rw [BlockGroup.blockList, hblocks]

/-- The partner of a boundary is a boundary of the same group. -/
theorem Listed.partner_mem (h : Listed program bs head tail) {b e : Nat} (hb : b ∈ bs)
    (hpaired : Paired program.markers b e) : e ∈ bs := by
  obtain ⟨rest, rfl, hchained⟩ := h.exists_chained
  exact List.mem_cons_of_mem _ (hchained.partner_mem hb hpaired)

/-- A marker that opens a block is a boundary of a group. -/
theorem exists_listed_of_opens (h : program.boundaryLists = .ok lists) {b : Nat}
    (hopens : ∃ m, program.markers[b]? = some m ∧ m.opens = true) :
    ∃ bs ∈ lists, ∃ head tail, Listed program bs head tail ∧ b ∈ bs := by
  obtain ⟨m, hm, hopens⟩ := hopens
  have hmarks : m.marks = true := by simp [Marker.marks, hopens]
  obtain ⟨bs, hbs, hmem⟩ := exists_mem_boundaries h hm hmarks
  obtain ⟨head, tail, hlisted⟩ := listed_of_mem h hbs
  exact ⟨bs, hbs, head, tail, hlisted, hmem⟩

/-- **The blocks of the groups of a well-formed program can be built.** -/
theorem exists_groupsWithBlocks (h : program.boundaryLists = .ok lists)
    (hperm : groups.Perm (lists.map (groupOf program))) :
    Program.groupsWithBlocks groups
      = .ok (groups.map fun group => (group, group.blockList)) := by
  refine mapM_eq_ok (List.forall₂_map_right_iff.mpr (List.forall₂_same.mpr fun group hgroup => ?_))
  obtain ⟨bs, hbs, rfl⟩ := List.mem_map.mp (hperm.mem_iff.mp hgroup)
  obtain ⟨head, tail, hlisted⟩ := listed_of_mem h hbs
  obtain ⟨rest, -, -, hblocks, hlist⟩ := hlisted.blocks
  rw [hblocks, hlist]
  rfl

/-- A block of a group has paired ends, of which the first is a boundary of the group. -/
theorem mem_blockList_iff (h : Listed program bs head tail) {block : Block} :
    block ∈ (groupOf program bs).blockList ↔ block.program = program ∧ block.head ∈ bs ∧
      Paired program.markers block.head block.tail := by
  obtain ⟨rest, rfl, hchained, -, hlist⟩ := h.blocks
  obtain ⟨other, c, d⟩ := block
  rw [hlist]
  constructor
  · intro hblock
    obtain rfl : other = program := (of_mem_blocksBetween hblock).1
    exact ⟨rfl, hchained.mem_blocksBetween.mp hblock⟩
  · rintro ⟨rfl, hblock⟩
    exact hchained.mem_blocksBetween.mpr hblock

/-- **The blocks of all groups are the paired markers.** -/
theorem mem_allBlocks_iff (h : program.boundaryLists = .ok lists) {block : Block} :
    block ∈ allBlocks (lists.map (groupOf program)) ↔
      block.program = program ∧ Paired program.markers block.head block.tail := by
  rw [allBlocks, List.mem_flatMap]
  constructor
  · rintro ⟨group, hgroup, hblock⟩
    obtain ⟨bs, hbs, rfl⟩ := List.mem_map.mp hgroup
    obtain ⟨head, tail, hlisted⟩ := listed_of_mem h hbs
    obtain ⟨hprogram, -, hpaired⟩ := (mem_blockList_iff hlisted).mp hblock
    exact ⟨hprogram, hpaired⟩
  · rintro ⟨hprogram, hpaired⟩
    obtain ⟨-, hopens, -⟩ := paired_iff.mp hpaired
    obtain ⟨bs, hbs, head, tail, hlisted, hmem⟩ := exists_listed_of_opens h hopens
    exact ⟨_, List.mem_map.mpr ⟨bs, hbs, rfl⟩,
      (mem_blockList_iff hlisted).mpr ⟨hprogram, hmem, hpaired⟩⟩

/-- No two blocks begin at one marker. -/
theorem nodup_map_head_allBlocks (h : program.boundaryLists = .ok lists) :
    ((allBlocks (lists.map (groupOf program))).map Block.head).Nodup := by
  obtain ⟨t, ht, rfl⟩ := exists_items_of_boundaryLists h
  have hnodup := (t.flatten_groups_perm 0).nodup_iff.mpr (nodup_placesOf _ _ _)
  have hheads : (allBlocks ((t.groups 0).map (groupOf program))).map Block.head
      = (t.groups 0).flatMap List.dropLast := by
    rw [allBlocks, List.flatMap_map, List.map_flatMap]
    refine List.flatMap_congr fun bs hbs => ?_
    obtain ⟨head, tail, hlisted⟩ := listed_of_mem h hbs
    obtain ⟨rest, rfl, -, -, hlist⟩ := hlisted.blocks
    rw [hlist, map_head_blocksBetween]
  obtain ⟨hwithin, hapart⟩ := List.pairwise_flatten.mp hnodup
  rw [hheads]
  refine List.pairwise_flatMap.mpr ⟨fun bs hbs => ?_, hapart.imp fun hne n hn n' hn' => ?_⟩
  · exact (hwithin bs hbs).sublist (List.dropLast_sublist bs)
  · exact hne n ((List.dropLast_sublist _).subset hn) n' ((List.dropLast_sublist _).subset hn')

end WellFormed

/-! ## The smallest block around a place -/

/-- Whether a block is the smallest one that has an index in its body. -/
structure IsInnermost (blocks : List Block) (idx : Int) (block : Block) : Prop where
  mem : block ∈ blocks
  around : idx ∈ block.body
  smallest : ∀ other ∈ blocks, idx ∈ other.body → other ≠ block → block.size < other.size

section Innermost

variable {program : Program} {lists : List (List Nat)} {head b : Nat}

theorem mem_body {block : Block} {n : Nat} :
    (n : Int) ∈ block.body ↔ block.head < n ∧ n < block.tail := by
  rw [Block.body, mem_upTo]
  omega

/-- **The block that is open at a group begin is the smallest one around it.** -/
theorem OpensAt.exists_innermost (hlists : program.boundaryLists = .ok lists)
    (hhead : program.markers[head]? = some .groupBegin) (h : OpensAt program.markers b head) :
    ∃ e, Paired program.markers b e ∧
      IsInnermost (allBlocks (lists.map (groupOf program))) head ⟨program, b, e⟩ := by
  have hbalanced := Program.isWellFormed_iff_balanced.mp (exists_boundaryLists_iff.mp ⟨_, hlists⟩)
  have hlt := h.lt
  obtain ⟨e, hpaired⟩ := exists_paired_of_opens hbalanced h.begins
  -- a group begin ends no block
  have hne : head ≠ e := by
    rintro rfl
    obtain ⟨-, -, ⟨m, hm, hcloses⟩, -⟩ := paired_iff.mp hpaired
    rw [hhead] at hm
    cases hm
    cases hcloses
  have hle := h.le_of_paired hpaired
  refine ⟨e, hpaired, (mem_allBlocks_iff hlists).mpr ⟨rfl, hpaired⟩, mem_body.mpr ⟨hlt, ?_⟩, ?_⟩
  · dsimp only
    omega
  · rintro ⟨other, c, d⟩ hother hin hdifferent
    obtain ⟨rfl, hpaired'⟩ := (mem_allBlocks_iff hlists).mp hother
    obtain ⟨hch, hhd⟩ := mem_body.mp hin
    rcases h.innermost hpaired hpaired' hch (Nat.le_of_lt hhd) with ⟨rfl, rfl⟩ | ⟨hcb, hed⟩
    · exact absurd rfl hdifferent
    · have hbe := (paired_iff.mp hpaired).1
      unfold Block.size
      dsimp only at hch hhd hcb hed ⊢
      omega

/-- Where no block is open, none has the place in its body. -/
theorem not_mem_body_of_balanced (hlists : program.boundaryLists = .ok lists)
    (h : Balanced (program.markers.take head)) :
    ∀ block ∈ allBlocks (lists.map (groupOf program)), (head : Int) ∉ block.body := by
  intro block hblock hin
  obtain ⟨-, hpaired⟩ := (mem_allBlocks_iff hlists).mp hblock
  obtain ⟨hlt, hlt'⟩ := mem_body.mp hin
  exact not_paired_around (k := 0) h (Nat.zero_le _) hlt (Nat.le_of_lt hlt') hpaired

end Innermost

end FlatCode
