import FlatCode.Proofs.Block.Chains
import FlatCode.Proofs.Results

/-!
# Outlines

In the outline of a list of markers only the begins and ends of groups are left: a divider ends one
block and begins the next, and both belong to the same group. Seen so, a group is one block. The
walk back to a group begin is the walk back to a block begin of the outline, and the walk over a
group ends where the walk to a block end of the outline does. So the first and the last boundary of
a group are paired markers of the outline (`Spans`).

* `Spans.nested` — a group that begins inside another one ends inside of it
* `exists_encloses` — the walk back from inside a group stops at its begin, or inside of it
-/

namespace FlatCode

/-- The marker as far as a group begins or ends at it. -/
def Marker.outline : Marker → Marker
  | .plain | .divider => .plain
  | .groupBegin => .groupBegin
  | .groupEnd => .groupEnd

/-- The markers of a list as far as groups begin or end at them. -/
def outlined (ms : List Marker) : List Marker := ms.map Marker.outline

@[simp] theorem length_outlined (ms : List Marker) : (outlined ms).length = ms.length :=
  List.length_map _

@[simp] theorem getElem?_outlined (ms : List Marker) (n : Nat) :
    (outlined ms)[n]? = ms[n]?.map Marker.outline :=
  List.getElem?_map

theorem Marker.opens_outline {m : Marker} : m.outline.opens = true ↔ m = .groupBegin := by
  cases m <;> simp [Marker.outline, Marker.opens]

theorem Marker.closes_outline {m : Marker} : m.outline.closes = true ↔ m = .groupEnd := by
  cases m <;> simp [Marker.outline, Marker.closes]

/-- The outline of a list has as many open groups behind it as the list. -/
theorem depthAfter_outlined {depth next : Nat} {ms : List Marker}
    (h : depthAfter depth ms = some next) : depthAfter depth (outlined ms) = some next := by
  induction ms generalizing depth with
  | nil => exact h
  | cons m ms ih =>
    cases hnext : m.next depth with
    | none =>
      rw [depthAfter, hnext] at h
      cases h
    | some middle =>
      rw [depthAfter_cons_of_next hnext] at h
      have houtline : m.outline.next depth = some middle := by
        cases m with
        | plain => exact hnext
        | groupBegin => exact hnext
        | groupEnd => exact hnext
        | divider =>
          by_cases hzero : depth = 0
          · rw [Marker.next, if_pos hzero] at hnext
            cases hnext
          · rw [Marker.next, if_neg hzero] at hnext
            exact hnext
      rw [outlined, List.map_cons, depthAfter_cons_of_next houtline]
      exact ih h

/-! ## Walks in the outline -/

/-- The walk to a group begin takes a divider for no marker. -/
theorem walkToHead_cons (start depth : Nat) (m : Marker) (rest : List Marker) :
    walkToHead start (depth + 1) (m :: rest)
      = match m.outline.mirror.next depth with
        | none => .ok rest.length
        | some next => walkToHead start (next + 1) rest := by
  rw [walkToHead]
  cases m with
  | plain => rfl
  | divider => rfl
  | groupEnd => rfl
  | groupBegin =>
    by_cases hzero : depth = 0
    · subst hzero
      rfl
    · have hpos : depth - 1 + 1 = depth := by omega
      simp [Marker.next, Marker.outline, Marker.mirror, Marker.closes, Marker.opens, hzero, hpos]

/-- **The walk to a group begin is the walk to a block begin of the outline.** -/
theorem walkToHead_eq (start stop depth : Nat) (ms : List Marker) :
    walkToHead start (depth + 1) ms
      = (walkToBegin stop (depth + 1) (outlined ms)).mapError fun _ => .noGroupAround start := by
  induction ms generalizing depth with
  | nil => rfl
  | cons m ms ih =>
    rw [walkToHead_cons, outlined, List.map_cons, walkToBegin_cons]
    cases m.outline.mirror.next depth with
    | none =>
      dsimp only
      rw [List.length_map]
      rfl
    | some next => exact ih next

/-- **The walk over a group ends where the walk to a block end of the outline does.** -/
theorem getLast?_walkOverGroup (start depth idx : Nat) (ms : List Marker) :
    (walkOverGroup start (depth + 1) idx ms).map List.getLast?
      = ((walkToEnd start (depth + 1) idx (outlined ms)).map some).mapError
          fun _ => .groupNeverClosed start := by
  induction ms generalizing depth idx with
  | nil => rfl
  | cons m ms ih =>
    rw [walkOverGroup_cons, outlined, List.map_cons, walkToEnd_cons]
    cases m with
    | plain => exact ih depth (idx + 1)
    | groupBegin => exact ih (depth + 1) (idx + 1)
    | groupEnd =>
      by_cases hzero : depth = 0
      · subst hzero
        rfl
      · simp only [Marker.outline, Marker.next, if_neg hzero]
        exact ih (depth - 1) (idx + 1)
    | divider =>
      by_cases hzero : depth = 0
      · -- the divider is a boundary of the group, and others are behind it
        subst hzero
        have hrest := ih 0 (idx + 1)
        simp only [Marker.outline, Marker.next, Marker.opens, if_true]
        rw [← outlined]
        cases hwalk : walkOverGroup start 1 (idx + 1) ms with
        | error e =>
          rw [hwalk] at hrest
          exact hrest
        | ok later =>
          rw [hwalk] at hrest
          rw [← hrest]
          cases later with
          | nil =>
            cases hend : walkToEnd start 1 (idx + 1) (outlined ms) with
            | error e =>
              rw [hend] at hrest
              cases hrest
            | ok stop =>
              rw [hend] at hrest
              cases hrest
          | cons next later => rfl
      · simp only [Marker.outline, Marker.next, if_neg hzero]
        exact ih depth (idx + 1)

/-- A divider or an end is a boundary of the group if the groups in front of it have ended. -/
theorem mem_of_walkOverGroup {start depth idx : Nat} {inner rest : List Marker} {m : Marker}
    {bs : List Nat} (h : walkOverGroup start (depth + 1) idx (inner ++ m :: rest) = .ok bs)
    (hinner : depthAfter depth (outlined inner) = some 0) (hm : m.closes = true) :
    idx + inner.length ∈ bs := by
  induction inner generalizing depth idx bs with
  | nil =>
    cases hinner
    rw [List.nil_append, walkOverGroup_cons, Marker.next_zero_of_closes hm] at h
    dsimp only at h
    by_cases hopens : m.opens = true
    · rw [if_pos hopens] at h
      obtain ⟨later, -, rfl⟩ := map_eq_ok_iff.mp h
      exact List.mem_cons_self
    · rw [if_neg hopens] at h
      cases h
      exact List.mem_cons_self
  | cons m' inner ih =>
    have hplace : idx + (m' :: inner).length = idx + 1 + inner.length := by
      rw [List.length_cons]
      omega
    rw [hplace]
    rw [List.cons_append, walkOverGroup_cons] at h
    rw [outlined, List.map_cons, depthAfter] at hinner
    cases m' with
    | plain => exact ih h hinner
    | groupBegin => exact ih h hinner
    | groupEnd =>
      by_cases hzero : depth = 0
      · subst hzero
        cases hinner
      · simp only [Marker.next, if_neg hzero] at h
        simp only [Marker.outline, Marker.next, if_neg hzero, Option.bind_some] at hinner
        exact ih h hinner
    | divider =>
      by_cases hzero : depth = 0
      · subst hzero
        simp only [Marker.next, Marker.opens, if_true] at h
        obtain ⟨later, hwalk, rfl⟩ := map_eq_ok_iff.mp h
        exact List.mem_cons_of_mem _ (ih hwalk hinner)
      · simp only [Marker.next, if_neg hzero] at h
        exact ih h hinner

/-! ## Groups as paired markers of the outline -/

theorem outlined_between (ms : List Marker) (a b : Nat) :
    outlined (between ms a b) = between (outlined ms) a b := by
  rw [outlined, outlined, between, between, List.map_drop, List.map_take]

/-- Whether a group begins at one place and ends at another, with complete groups between. -/
def Spans (ms : List Marker) (head tail : Nat) : Prop := Paired (outlined ms) head tail

/-- Whether a group begins in front of a place, and all groups that begin between the two end
there. -/
structure Encloses (ms : List Marker) (head n : Nat) : Prop where
  lt : head < n
  begins : ms[head]? = some .groupBegin
  balanced : Balanced (between (outlined ms) head n)

section Spans

variable {ms : List Marker} {a b c d n : Nat}

theorem exists_outlined_iff {keep : Marker → Bool} {marker : Marker}
    (h : ∀ m : Marker, keep m.outline = true ↔ m = marker) :
    (∃ m, (outlined ms)[n]? = some m ∧ keep m = true) ↔ ms[n]? = some marker := by
  rw [getElem?_outlined]
  constructor
  · rintro ⟨o, ho, hkeep⟩
    obtain ⟨m, hm, rfl⟩ := Option.map_eq_some_iff.mp ho
    rw [hm, (h m).mp hkeep]
  · intro hm
    rw [hm]
    exact ⟨marker.outline, rfl, (h marker).mpr rfl⟩

/-- The boundaries of a group in terms of the places. -/
theorem spans_iff : Spans ms a b ↔ a < b ∧ ms[a]? = some .groupBegin ∧ ms[b]? = some .groupEnd ∧
    Balanced (between (outlined ms) a b) := by
  rw [Spans, paired_iff, exists_outlined_iff fun _ => Marker.opens_outline,
    exists_outlined_iff fun _ => Marker.closes_outline]
  rfl

theorem Spans.lt (h : Spans ms a b) : a < b := (spans_iff.mp h).1

theorem Spans.begins (h : Spans ms a b) : ms[a]? = some .groupBegin := (spans_iff.mp h).2.1

theorem Spans.ends (h : Spans ms a b) : ms[b]? = some .groupEnd := (spans_iff.mp h).2.2.1

theorem Spans.balanced (h : Spans ms a b) : Balanced (between (outlined ms) a b) :=
  (spans_iff.mp h).2.2.2

/-- The walk to the end of a block of the outline answers with the end of the group. -/
theorem walkToEnd_iff_spans (ha : ms[a]? = some .groupBegin) :
    walkToEnd a 1 (a + 1) (outlined (ms.drop (a + 1))) = .ok b ↔ Spans ms a b := by
  have hbegin : (outlined ms)[a]? = some .groupBegin := by
    rw [getElem?_outlined, ha]
    rfl
  rw [outlined, List.map_drop]
  exact walkToEnd_iff_paired hbegin rfl

theorem Spans.unique (h : Spans ms a b) (h' : Spans ms a c) : b = c := Paired.unique h h'

/-- **The walk back to a group begin answers with the begin of a group that is open in front of the
start.** -/
theorem walkToHead_iff_encloses (hn : n ≤ ms.length) :
    walkToHead n 1 (ms.take n).reverse = .ok a ↔ Encloses ms a n := by
  -- the walk does not look at the start, so it may as well start at the end of a group
  obtain ⟨closed, hclosed⟩ : ∃ closed, closed = (outlined ms).take n ++ [Marker.groupEnd] :=
    ⟨_, rfl⟩
  have hlength : ((outlined ms).take n).length = n := by
    rw [List.length_take, length_outlined]
    omega
  have htake : closed.take n = (outlined ms).take n := by
    rw [hclosed]
    exact List.take_left' hlength
  have hend : closed[n]? = some .groupEnd := by
    have hlast := getElem?_append_cons ((outlined ms).take n) [] Marker.groupEnd
    rwa [hlength, ← hclosed] at hlast
  have hfront : ∀ k < n, closed[k]? = (outlined ms)[k]? := by
    intro k hk
    rw [hclosed, List.getElem?_append_left (by omega), List.getElem?_take_of_lt hk]
  have hreverse : outlined (ms.take n).reverse = (closed.take n).reverse := by
    rw [htake, outlined, outlined, List.map_reverse, List.map_take]
  rw [walkToHead_eq n n 0, mapError_eq_ok_iff, hreverse, walkToBegin_iff_paired hend rfl,
    paired_iff, htake]
  constructor
  · rintro ⟨hlt, hopens, -, hbalanced⟩
    rw [hfront a hlt] at hopens
    exact ⟨hlt, (exists_outlined_iff fun _ => Marker.opens_outline).mp hopens, hbalanced⟩
  · intro h
    refine ⟨h.lt, ?_, ⟨_, hend, rfl⟩, h.balanced⟩
    rw [hfront a h.lt]
    exact (exists_outlined_iff fun _ => Marker.opens_outline).mpr h.begins

/-- **A group that begins between two places with complete groups between ends between them.** -/
theorem exists_spans_of_balanced (h : Balanced (between (outlined ms) a b)) (hac : a < c)
    (hcb : c < b) (hc : ms[c]? = some .groupBegin) : ∃ d, Spans ms c d ∧ d < b :=
  exists_paired_of_balanced h hac hcb
    ((exists_outlined_iff fun _ => Marker.opens_outline).mpr hc)

/-- **A group that begins inside another one ends inside of it.** -/
theorem Spans.nested (h : Spans ms a b) (hac : a < c) (hcb : c < b)
    (hc : ms[c]? = some .groupBegin) : ∃ d, Spans ms c d ∧ d < b :=
  exists_spans_of_balanced h.balanced hac hcb hc

/-- **A group that begins inside a block ends inside of it.** -/
theorem Paired.nested (h : Paired ms a b) (hac : a < c) (hcb : c < b)
    (hc : ms[c]? = some .groupBegin) : ∃ d, Spans ms c d ∧ d < b := by
  have hbalanced : Balanced (between ms a b) := (paired_iff.mp h).2.2.2
  have houtlined := depthAfter_outlined hbalanced
  rw [outlined_between] at houtlined
  exact exists_spans_of_balanced houtlined hac hcb hc

/-- A group that encloses a place is one block of the outline that is open there. -/
theorem encloses_iff_opensAt : Encloses ms a n ↔ OpensAt (outlined ms) a n := by
  constructor
  · intro h
    exact ⟨h.lt, (exists_outlined_iff fun _ => Marker.opens_outline).mpr h.begins, h.balanced⟩
  · intro h
    exact ⟨h.lt, (exists_outlined_iff fun _ => Marker.opens_outline).mp h.begins, h.balanced⟩

/-- **A place in a group is enclosed by the group, or by one that begins inside of it.** -/
theorem Spans.exists_encloses (h : Spans ms a b) (han : a < n) (hnb : n ≤ b) :
    ∃ c, a ≤ c ∧ Encloses ms c n := by
  have hinner := h.balanced
  rw [Balanced, ← List.take_append_drop (n - (a + 1)) (between (outlined ms) a b),
    ← between_eq_take (outlined ms) hnb, depthAfter_append] at hinner
  cases hfront : depthAfter 0 (between (outlined ms) a n) with
  | none =>
    rw [hfront] at hinner
    cases hinner
  | some depth =>
    cases depth with
    | zero => exact ⟨a, Nat.le_refl a, han, h.begins, hfront⟩
    | succ depth =>
      obtain ⟨c, hac, hopens⟩ := exists_opensAt_of_depthAfter hfront
      exact ⟨c, Nat.le_of_lt hac, encloses_iff_opensAt.mpr hopens⟩

/-- A group that encloses a place does not end in front of it. -/
theorem Encloses.le_of_spans (h : Encloses ms a n) (h' : Spans ms a b) : n ≤ b :=
  (encloses_iff_opensAt.mp h).le_of_paired h'

end Spans

end FlatCode
