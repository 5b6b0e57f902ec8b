import FlatCode.Proofs.Block.Surrounding

/-!
# The groups that a program lists

A well-formed program lists the boundaries of its groups, group by group in the order in which they
end. A marker is a boundary of one of these groups only, and two of them are apart, or one is inside
the other.

* `listed_of_mem` — the groups are those that the walk over a group finds
* `eq_of_mem_boundaries` — no marker is a boundary of two groups
* `inside_of_mem_range` — a group with a boundary in the range of another one is inside of it
-/

namespace FlatCode

/-- The boundaries of a group stand in their order. -/
theorem Chained.within {ms : List Marker} {b : Nat} {rest : List Nat} (h : Chained ms b rest) :
    ∃ last, (b :: rest).getLast? = some last ∧ ∀ n ∈ b :: rest, b ≤ n ∧ n ≤ last := by
  induction h with
  | @last b e hpaired hend =>
    have hlt := (paired_iff.mp hpaired).1
    refine ⟨e, rfl, fun n hn => ?_⟩
    rcases List.mem_cons.mp hn with rfl | hn
    · omega
    · rw [List.mem_singleton.mp hn]
      omega
  | @next b e rest hpaired hdivider hrest ih =>
    have hlt := (paired_iff.mp hpaired).1
    obtain ⟨last, hlast, hwithin⟩ := ih
    refine ⟨last, List.getLast?_cons_cons.trans hlast, fun n hn => ?_⟩
    rcases List.mem_cons.mp hn with rfl | hn
    · have := hwithin e List.mem_cons_self
      omega
    · have := hwithin n hn
      omega

/-! ## Groups by their boundaries -/

/-- Whether places are the boundaries of a group that begins and ends at two of them. -/
structure Listed (program : Program) (bs : List Nat) (head tail : Nat) : Prop where
  begins : bs.head? = some head
  ends : bs.getLast? = some tail
  within : ∀ n ∈ bs, head ≤ n ∧ n ≤ tail
  collected : program.groupBoundaries head = .ok bs

theorem groupOf_injective {program : Program} {bs bs' : List Nat}
    (h : groupOf program bs = groupOf program bs') : bs = bs' :=
  (List.map_inj_right fun _ _ heq => Int.ofNat.inj heq).mp (congrArg BlockGroup.boundaries h)

section Listed

variable {program : Program} {bs : List Nat} {head tail : Nat} {idx : Int}

theorem Listed.head_groupOf (h : Listed program bs head tail) (other : Program) :
    (groupOf other bs).head = head := by
  rw [BlockGroup.head, boundaries_groupOf, List.head?_map, h.begins]
  rfl

theorem Listed.tail_groupOf (h : Listed program bs head tail) (other : Program) :
    (groupOf other bs).tail = tail := by
  rw [BlockGroup.tail, boundaries_groupOf, List.getLast?_map, h.ends]
  rfl

theorem mem_upTo {start stop : Int} : idx ∈ upTo start stop ↔ start ≤ idx ∧ idx < stop := by
  rw [upTo, List.mem_map]
  constructor
  · rintro ⟨n, hn, rfl⟩
    rw [List.mem_range] at hn
    omega
  · intro h
    refine ⟨(idx - start).toNat, ?_, ?_⟩
    · rw [List.mem_range]
      omega
    · omega

/-- The range of a group goes from its first to its last boundary. -/
theorem Listed.mem_range (h : Listed program bs head tail) (other : Program) :
    idx ∈ (groupOf other bs).range ↔ (head : Int) ≤ idx ∧ idx ≤ tail := by
  rw [BlockGroup.range, mem_upTo, h.head_groupOf, h.tail_groupOf]
  omega

theorem Listed.chainedGroup (h : Listed program bs head tail) :
    ChainedGroup program (groupOf program bs) := chainedGroup_iff.mpr ⟨head, bs, h.collected, rfl⟩

theorem Listed.hasFacet (h : Listed program bs head tail) : program.HasFacet head .groupBegin :=
  Program.hasFacet_of_groupBoundaries h.collected

theorem Listed.begin_marker (h : Listed program bs head tail) :
    program.markers[head]? = some .groupBegin := Program.hasFacet_groupBegin.mp h.hasFacet

/-- The boundaries of a group are chained. -/
theorem Listed.exists_chained (h : Listed program bs head tail) :
    ∃ rest, bs = head :: rest ∧ Chained program.markers head rest :=
  (Program.groupBoundaries_eq_ok_iff h.begin_marker).mp h.collected

/-- **What the walk over a group answers with is a group.** -/
theorem exists_listed (h : program.groupBoundaries idx = .ok bs) :
    ∃ head tail : Nat, idx = head ∧ Listed program bs head tail := by
  obtain ⟨head, rfl, -⟩ := id (Program.hasFacet_of_groupBoundaries h)
  have hhead := Program.hasFacet_groupBegin.mp (Program.hasFacet_of_groupBoundaries h)
  obtain ⟨rest, rfl, hchained⟩ := (Program.groupBoundaries_eq_ok_iff hhead).mp h
  obtain ⟨tail, htail, hwithin⟩ := hchained.within
  exact ⟨head, tail, rfl, rfl, htail, hwithin, h⟩

/-- All boundaries of a group are markers. -/
theorem Listed.marks (h : Listed program bs head tail) {n : Nat} (hn : n ∈ bs) :
    ∃ m, program.markers[n]? = some m ∧ m.marks = true := by
  obtain ⟨rest, rfl, hchained⟩ := h.exists_chained
  obtain ⟨dividers, last, rfl, hlast, hdividers⟩ := hchained.eq_concat
  rcases List.mem_cons.mp hn with rfl | hn
  · exact ⟨_, h.begin_marker, rfl⟩
  · rcases List.mem_append.mp hn with hn | hn
    · exact ⟨_, hdividers n hn, rfl⟩
    · rw [List.mem_singleton.mp hn]
      exact ⟨_, hlast, rfl⟩

theorem Listed.lt_size (h : Listed program bs head tail) {n : Nat} (hn : n ∈ bs) :
    n < program.size := by
  obtain ⟨m, hm, -⟩ := h.marks hn
  obtain ⟨hlt, -⟩ := List.getElem?_eq_some_iff.mp hm
  rwa [Program.length_markers] at hlt

theorem Listed.tail_mem (h : Listed program bs head tail) : tail ∈ bs := List.mem_of_getLast? h.ends

theorem Listed.head_mem (h : Listed program bs head tail) : head ∈ bs := List.mem_of_head? h.begins

end Listed

/-! ## The groups of the enumeration -/

section Lists

variable {program : Program} {lists : List (List Nat)}

theorem groups_of_boundaryLists (h : program.boundaryLists = .ok lists) :
    program.groups = .ok (lists.map (groupOf program)) := by
  rw [Program.boundaryLists] at h
  rw [Program.groups_eq, h]
  rfl

theorem exists_boundaryLists_iff :
    (∃ lists, program.boundaryLists = .ok lists) ↔ program.isWellFormed = true := by
  rw [Program.isWellFormed_iff_groups, Program.groups_eq, exists_ok_map_iff]
  rfl

/-- The groups that are listed are those of a tree. -/
theorem exists_items_of_boundaryLists (h : program.boundaryLists = .ok lists) :
    ∃ t : Items, t.markers = program.markers ∧ lists = t.groups 0 := by
  have hwell := exists_boundaryLists_iff.mp ⟨lists, h⟩
  obtain ⟨t, ht⟩ := balanced_iff_exists_items.mp (Program.isWellFormed_iff_balanced.mp hwell)
  rw [boundaryLists_of_markers ht] at h
  exact ⟨t, ht, (Except.ok.inj h).symm⟩

/-- **The groups that are listed are those that the walk over a group finds.** -/
theorem listed_of_mem (h : program.boundaryLists = .ok lists) {bs : List Nat} (hbs : bs ∈ lists) :
    ∃ head tail, Listed program bs head tail := by
  obtain ⟨t, ht, rfl⟩ := exists_items_of_boundaryLists h
  have hdrop : program.markers.drop 0 = t.markers ++ [] := by
    rw [List.drop_zero, List.append_nil, ht]
  obtain ⟨head, rest, rfl, hhead, hchained⟩ := t.chained_of_mem hdrop hbs
  obtain ⟨head', tail, -, hlisted⟩ :=
    exists_listed ((Program.groupBoundaries_eq_ok_iff hhead).mpr ⟨rest, rfl, hchained⟩)
  exact ⟨head', tail, hlisted⟩

theorem mem_boundaryLists_iff (h : program.boundaryLists = .ok lists) {bs : List Nat} :
    bs ∈ lists ↔ ChainedGroup program (groupOf program bs) := by
  rw [← mem_groups_iff (groups_of_boundaryLists h), List.mem_map]
  constructor
  · intro hbs
    exact ⟨bs, hbs, rfl⟩
  · rintro ⟨bs', hbs', heq⟩
    rwa [← groupOf_injective heq]

/-- **No marker is a boundary of two groups.** -/
theorem eq_of_mem_boundaries (h : program.boundaryLists = .ok lists) {bs bs' : List Nat} {n : Nat}
    (hbs : bs ∈ lists) (hbs' : bs' ∈ lists) (hn : n ∈ bs) (hn' : n ∈ bs') : bs = bs' := by
  obtain ⟨t, ht, rfl⟩ := exists_items_of_boundaryLists h
  have hnodup := (t.flatten_groups_perm 0).nodup_iff.mpr (nodup_placesOf _ _ _)
  have hapart := (List.pairwise_flatten.mp hnodup).2
  by_contra hne
  have hsymm : Std.Symm fun l l' : List Nat => ∀ x ∈ l, ∀ y ∈ l', x ≠ y :=
    ⟨fun _ _ h x hx y hy heq => h y hy x hx heq.symm⟩
  exact hapart.forall hbs hbs' hne n hn n hn' rfl

/-- A marker is a boundary of a group. -/
theorem exists_mem_boundaries (h : program.boundaryLists = .ok lists) {n : Nat} {m : Marker}
    (hm : program.markers[n]? = some m) (hmarks : m.marks = true) : ∃ bs ∈ lists, n ∈ bs := by
  obtain ⟨t, ht, rfl⟩ := exists_items_of_boundaryLists h
  refine List.mem_flatten.mp ?_
  rw [(t.flatten_groups_perm 0).mem_iff, mem_placesOf, ht]
  exact ⟨Nat.zero_le n, m, hm, hmarks⟩

/-- The groups are listed in the order of their ends. -/
theorem pairwise_ends (h : program.boundaryLists = .ok lists) :
    lists.Pairwise fun bs bs' => ∀ n ∈ bs.getLast?, ∀ n' ∈ bs'.getLast?, n < n' := by
  obtain ⟨t, ht, rfl⟩ := exists_items_of_boundaryLists h
  have hplaces := pairwise_placesOf Marker.endsGroup 0 t.markers
  have hlasts : ((t.groups 0).map List.getLast?).Pairwise
      fun last last' => ∀ n ∈ last, ∀ n' ∈ last', n < n' := by
    rw [t.lasts_groups 0, List.pairwise_map]
    refine hplaces.imp fun hlt n hn n' hn' => ?_
    cases hn
    cases hn'
    exact hlt
  exact List.pairwise_map.mp hlasts

/-- **A group with a boundary in the range of another one is inside of it.** -/
theorem inside_of_mem_range (h : program.boundaryLists = .ok lists) {bs bs' : List Nat}
    {a b c d n : Nat} (hbs' : bs' ∈ lists) (hlisted : Listed program bs a b)
    (hlisted' : Listed program bs' c d) (hn : n ∈ bs') (han : a ≤ n) (hnb : n ≤ b) :
    bs' = bs ∨ (a < c ∧ d < b) := by
  have hsize := hlisted'.lt_size hn
  have haround : program.GroupAround n (groupOf program bs) := by
    rw [Program.groupAround_iff, hlisted.head_groupOf, hlisted.tail_groupOf]
    exact ⟨hlisted.chainedGroup, Int.ofNat_le.mpr han, Int.ofNat_le.mpr hnb⟩
  -- the marker is a boundary of the group that is found around it, so this is the other group
  obtain ⟨group, hgroup, hinside⟩ := exists_surrounding_of_groupAround hsize haround
  obtain ⟨m, hm, hmarks⟩ := hlisted'.marks hn
  have hmem := mem_boundaries_of_surrounding hsize hgroup hm hmarks
  obtain ⟨head, found, -, hwalk, rfl⟩ := (surrounding_eq_ok_iff hsize).mp hgroup
  have hfound : found ∈ lists :=
    (mem_boundaryLists_iff h).mpr (chainedGroup_iff.mpr ⟨head, found, hwalk, rfl⟩)
  obtain rfl := eq_of_mem_boundaries h hfound hbs' (natCast_mem_map.mp hmem) hn
  rcases hinside with hsame | ⟨hhead, htail⟩
  · exact .inl (groupOf_injective hsame).symm
  · rw [hlisted.head_groupOf, hlisted'.head_groupOf] at hhead
    rw [hlisted.tail_groupOf, hlisted'.tail_groupOf] at htail
    exact .inr ⟨Int.ofNat_lt.mp hhead, Int.ofNat_lt.mp htail⟩

end Lists

end FlatCode
