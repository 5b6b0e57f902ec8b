import Mathlib.Data.List.MinMax
import FlatCode.Proofs.Nesting.Graph

/-!
# How many groups are around a place

The groups with a place in their range are counted (`coverage`). All boundaries of a group have the
same groups around them, and at the begin of a group there is one more than at the block that is open
there: the group itself. So the coverage goes up by one from a group to the groups in its blocks, and
at the begin of a group it is one more than the depth.

* `Listed.coverage_eq` — all boundaries of a group have the same groups around
* `coverage_of_opensAt` — a group has one group more around its begin than the block it stands in
* `coverage_eq_depth` — the coverage of a group begin is one more than its depth
* `exists_coverage_le` — no place has more groups around it than some group begin
-/

namespace FlatCode

/-! ## Counting groups -/

/-- The number of groups with an index in their range, given by their boundaries. -/
def coverage (program : Program) (lists : List (List Nat)) (idx : Int) : Nat :=
  lists.countP fun bs => idx ∈ (groupOf program bs).range

/-- A property that one more item of a list has is counted once more. -/
theorem countP_eq_succ {α : Type} {p q : α → Bool} {items : List α} {item : α}
    (hnodup : items.Nodup) (hitem : item ∈ items) (hp : p item = true) (hq : q item = false)
    (h : ∀ other ∈ items, other ≠ item → p other = q other) :
    items.countP p = items.countP q + 1 := by
  obtain ⟨front, back, rfl⟩ := List.append_of_mem hitem
  have hperm : (front ++ item :: back).Perm (item :: (front ++ back)) := List.perm_middle
  obtain ⟨hnotin, -⟩ := List.nodup_cons.mp (hperm.nodup_iff.mp hnodup)
  have hothers : (front ++ back).countP p = (front ++ back).countP q := by
    refine List.countP_congr fun other hother => ?_
    rw [h other (hperm.mem_iff.mpr (List.mem_cons_of_mem _ hother))
      fun heq => hnotin (heq ▸ hother)]
  rw [hperm.countP_eq, hperm.countP_eq, List.countP_cons_of_pos hp,
    List.countP_cons_of_neg (by simp [hq]), hothers]

section WellFormed

variable {program : Program} {lists : List (List Nat)} {own bs : List Nat}
  {head tail block c d k n : Nat}

/-- No group is listed twice. -/
theorem nodup_boundaryLists (h : program.boundaryLists = .ok lists) : lists.Nodup := by
  obtain ⟨t, ht, rfl⟩ := exists_items_of_boundaryLists h
  have hheads : ((t.groups 0).map List.head?).Nodup := by
    rw [(List.perm_iff_count.mpr (t.count_heads 0)).nodup_iff]
    exact (nodup_placesOf _ _ _).map fun _ _ => Option.some.inj
  exact hheads.of_map

/-- A group is the only one that begins where it does. -/
theorem Listed.eq_of_head (h : Listed program own head tail) (h' : Listed program bs head d) :
    own = bs := Except.ok.inj (h.collected.symm.trans h'.collected)

/-- A group around the begin of another one begins in front of it and ends behind. -/
theorem Listed.strictly (hlists : program.boundaryLists = .ok lists) (hown : own ∈ lists)
    (h : Listed program own head tail) (h' : Listed program bs c d) (hne : bs ≠ own) (hc : c ≤ head)
    (hd : head ≤ d) : c < head ∧ head < d := by
  rcases inside_of_mem_range hlists hown h' h h.head_mem hc hd with heq | ⟨hlt, hlt'⟩
  · exact absurd heq.symm hne
  · have hle := (h.within tail h.tail_mem).1
    exact ⟨hlt, by omega⟩

/-- The groups around a boundary of a group are those around its begin. -/
theorem Listed.around_iff (hlists : program.boundaryLists = .ok lists) (hown : own ∈ lists)
    (h : Listed program own head tail) (h' : Listed program bs c d) (hn : n ∈ own) :
    (c ≤ n ∧ n ≤ d) ↔ c ≤ head ∧ head ≤ d := by
  have hwithin := h.within n hn
  constructor
  · rintro ⟨hcn, hnd⟩
    rcases inside_of_mem_range hlists hown h' h hn hcn hnd with rfl | ⟨hlt, hlt'⟩
    · obtain rfl := Option.some.inj (h.begins.symm.trans h'.begins)
      exact ⟨Nat.le_refl _, (h'.within head h.head_mem).2⟩
    · have hle := (h.within tail h.tail_mem).1
      omega
  · rintro ⟨hch, hhd⟩
    rcases inside_of_mem_range hlists hown h' h h.head_mem hch hhd with rfl | ⟨hlt, hlt'⟩
    · exact h'.within n hn
    · omega

/-- **All boundaries of a group have the same groups around them.** -/
theorem Listed.coverage_eq (hlists : program.boundaryLists = .ok lists) (hown : own ∈ lists)
    (h : Listed program own head tail) (hn : n ∈ own) :
    coverage program lists n = coverage program lists head := by
  refine List.countP_congr fun bs hbs => ?_
  obtain ⟨c, d, h'⟩ := listed_of_mem hlists hbs
  rw [decide_eq_true_eq, decide_eq_true_eq, h'.mem_range, h'.mem_range, Int.ofNat_le, Int.ofNat_le,
    Int.ofNat_le, Int.ofNat_le]
  exact h.around_iff hlists hown h' hn

/-- A group that begins behind an open block and in front of a place ends there. -/
theorem not_spans_around (h : Balanced ((program.markers.take n).drop k)) (hc : k ≤ c)
    (hcn : c < n) (hnd : n ≤ d) : ¬Spans program.markers c d := by
  have houtlined := depthAfter_outlined h
  rw [outlined, List.map_drop, List.map_take] at houtlined
  exact not_paired_around houtlined hc hcn hnd

/-- The groups around a block are those around the begins of the groups in it, but for the groups
themselves. -/
theorem Listed.around_iff_of_opensAt (hlists : program.boundaryLists = .ok lists)
    (hown : own ∈ lists) (h : Listed program own head tail)
    (hopens : OpensAt program.markers block head) (hbs : bs ∈ lists) (h' : Listed program bs c d)
    (hne : bs ≠ own) : (c ≤ head ∧ head ≤ d) ↔ c ≤ block ∧ block ≤ d := by
  have hlt := hopens.lt
  constructor
  · rintro ⟨hch, hhd⟩
    obtain ⟨hch, -⟩ := h.strictly hlists hown h' hne hch hhd
    refine ⟨?_, by omega⟩
    by_contra hbc
    exact not_spans_around hopens.balanced (by omega) hch hhd h'.spans
  · rintro ⟨hcb, hbd⟩
    -- the block ends at a boundary of the group that it belongs to
    obtain ⟨e, hpaired, -⟩ := hopens.exists_innermost hlists h.begin_marker
    have hle := hopens.le_of_paired hpaired
    obtain ⟨owner, howner, first, last, hlisted, hmem⟩ :=
      exists_listed_of_opens hlists hopens.begins
    have hend := (hlisted.within e (hlisted.partner_mem hmem hpaired)).2
    rcases inside_of_mem_range hlists howner h' hlisted hmem hcb hbd with rfl | ⟨hlt, hlt'⟩
    · obtain rfl := Option.some.inj (hlisted.ends.symm.trans h'.ends)
      omega
    · omega

theorem coverage_eq_succ (hlists : program.boundaryLists = .ok lists) (hown : own ∈ lists)
    (h : Listed program own head tail) {q : List Nat → Bool} (hq : q own = false)
    (hothers : ∀ bs ∈ lists, ∀ c d, Listed program bs c d → bs ≠ own →
      ((c ≤ head ∧ head ≤ d) ↔ q bs = true)) :
    coverage program lists head = lists.countP q + 1 := by
  refine countP_eq_succ (nodup_boundaryLists hlists) hown ?_ hq fun bs hbs hne => ?_
  · rw [decide_eq_true_eq, h.mem_range]
    have hle := (h.within tail h.tail_mem).1
    omega
  · obtain ⟨c, d, h'⟩ := listed_of_mem hlists hbs
    rw [Bool.eq_iff_iff, decide_eq_true_eq, h'.mem_range, Int.ofNat_le, Int.ofNat_le]
    exact hothers bs hbs c d h' hne

/-- **A group has one group more around its begin than the block it stands in.** -/
theorem coverage_of_opensAt (hlists : program.boundaryLists = .ok lists) (hown : own ∈ lists)
    (h : Listed program own head tail) (hopens : OpensAt program.markers block head) :
    coverage program lists head = coverage program lists block + 1 := by
  refine coverage_eq_succ hlists hown h ?_ fun bs hbs c d h' hne => ?_
  · have hlt := hopens.lt
    rw [decide_eq_false_iff_not, h.mem_range]
    omega
  · rw [decide_eq_true_eq, h'.mem_range, Int.ofNat_le, Int.ofNat_le]
    exact h.around_iff_of_opensAt hlists hown hopens hbs h' hne

/-- A group that stands in no block has only itself around its begin. -/
theorem coverage_of_balanced (hlists : program.boundaryLists = .ok lists) (hown : own ∈ lists)
    (h : Listed program own head tail) (hbalanced : Balanced (program.markers.take head)) :
    coverage program lists head = 1 := by
  have hnone : lists.countP (fun _ => false) = 0 := by simp
  rw [← Nat.zero_add 1, ← hnone]
  refine coverage_eq_succ hlists hown h rfl fun bs hbs c d h' hne => ?_
  simp only [Bool.false_eq_true, iff_false]
  rintro ⟨hch, hhd⟩
  obtain ⟨hch, -⟩ := h.strictly hlists hown h' hne hch hhd
  exact not_spans_around (k := 0) hbalanced (Nat.zero_le c) hch hhd h'.spans

/-- **The coverage of a group begin is one more than its depth.** -/
theorem coverage_eq_depth (hlists : program.boundaryLists = .ok lists) (hown : own ∈ lists)
    (h : Listed program own head tail) :
    coverage program lists head = lists.countP (Surrounds head) + 1 := by
  refine coverage_eq_succ hlists hown h ?_ fun bs hbs c d h' hne => ?_
  · rw [Bool.eq_false_iff, Ne, surrounds_iff h.begins h.ends]
    omega
  · rw [surrounds_iff h'.begins h'.ends]
    constructor
    · rintro ⟨hch, hhd⟩
      obtain ⟨hch, hhd⟩ := h.strictly hlists hown h' hne hch hhd
      refine ⟨hch, hhd, fun hmem => hne ?_⟩
      exact eq_of_mem_boundaries hlists hbs hown hmem h.head_mem
    · rintro ⟨hch, hhd, -⟩
      omega

/-- **No place has more groups around it than some group begin**, if it has any. -/
theorem exists_coverage_le (hlists : program.boundaryLists = .ok lists) (idx : Int) :
    coverage program lists idx = 0 ∨ ∃ bs ∈ lists, ∃ head tail, Listed program bs head tail ∧
      coverage program lists idx ≤ coverage program lists head := by
  cases hmax : (lists.filter fun bs => idx ∈ (groupOf program bs).range).argmax
      fun bs => bs.head?.getD 0 with
  | none =>
    refine .inl ?_
    rw [coverage, List.countP_eq_length_filter, List.argmax_eq_none.mp hmax]
    rfl
  | some bs =>
    -- of the groups around, the one that begins last
    obtain ⟨hbs, hidx⟩ := List.mem_filter.mp (List.argmax_mem hmax)
    obtain ⟨head, tail, hlisted⟩ := listed_of_mem hlists hbs
    refine .inr ⟨bs, hbs, head, tail, hlisted, List.countP_mono_left fun bs' hbs' hidx' => ?_⟩
    obtain ⟨c, d, h'⟩ := listed_of_mem hlists hbs'
    have hle := List.le_of_mem_argmax (List.mem_filter.mpr ⟨hbs', hidx'⟩) hmax
    rw [hlisted.begins, h'.begins] at hle
    rw [decide_eq_true_eq, hlisted.mem_range] at hidx
    rw [decide_eq_true_eq, h'.mem_range] at hidx' ⊢
    have hle' : c ≤ head := hle
    omega

end WellFormed

end FlatCode
