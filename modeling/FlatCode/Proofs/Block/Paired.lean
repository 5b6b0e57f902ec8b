import FlatCode.Block.Scan
import FlatCode.Proofs.Block.Level

/-!
# Paired markers

The walk to a block end leaves the level of the block at the end, and the walk back to a block begin
leaves the mirrored level at the begin. Both find the two markers with balanced markers between them
(`Paired`). What stands outside of the two is not looked at. Of the blocks that have begun in front
of a place, one is open there if the markers behind it are balanced (`OpensAt`).

* `walkToEnd_eq`, `walkToBegin_eq` — the walks look for the exit from a level, and fail without one
* `walkToEnd_iff_paired`, `walkToBegin_iff_paired` — they find paired markers
* `exists_paired_of_balanced` — a block that begins in a balanced stretch ends in it
* `OpensAt.innermost` — of the blocks around a place, the one that is open there is the smallest
-/

namespace FlatCode

/-! ## The walk to an end -/

/-- A step of the walk, which counts the block itself above the level. -/
theorem walkToEnd_cons (start depth idx : Nat) (m : Marker) (rest : List Marker) :
    walkToEnd start (depth + 1) idx (m :: rest)
      = match m.next depth with
        | none => .ok idx
        | some next => walkToEnd start (next + 1) (idx + 1) rest := by
  rw [walkToEnd]
  cases m with
  | plain => rfl
  | groupBegin => rfl
  | divider =>
    by_cases hzero : depth = 0
    · subst hzero
      rfl
    · simp [Marker.next, Marker.closes, Marker.opens, hzero]
  | groupEnd =>
    by_cases hzero : depth = 0
    · subst hzero
      rfl
    · have hpos : depth - 1 + 1 = depth := by omega
      simp [Marker.next, Marker.closes, Marker.opens, hzero, hpos]

/-- **The walk ends where the level is left.** -/
theorem walkToEnd_eq (start depth idx : Nat) (ms : List Marker) :
    walkToEnd start (depth + 1) idx ms
      = match exit? depth idx ms with
        | none => .error (.blockNeverClosed start)
        | some x => .ok x.place := by
  induction ms generalizing depth idx with
  | nil => rfl
  | cons m ms ih =>
    rw [walkToEnd_cons, exit?]
    cases m.next depth with
    | none => rfl
    | some next => exact ih next (idx + 1)

theorem walkToEnd_eq_ok_iff {start idx stop : Nat} {ms : List Marker} :
    walkToEnd start 1 idx ms = .ok stop ↔ ∃ x, exit? 0 idx ms = some x ∧ x.place = stop := by
  rw [walkToEnd_eq]
  cases exit? 0 idx ms with
  | none => simp
  | some x => simp

theorem error_of_walkToEnd {start idx : Nat} {ms : List Marker} {e : StructureError}
    (h : walkToEnd start 1 idx ms = .error e) : e = .blockNeverClosed start := by
  rw [walkToEnd_eq] at h
  cases hexit : exit? 0 idx ms with
  | none =>
    rw [hexit] at h
    exact (Except.error.inj h).symm
  | some x =>
    rw [hexit] at h
    cases h

/-! ## The walk back to a begin -/

/-- A step of the walk back is a step in the mirror. -/
theorem walkToBegin_cons (stop depth : Nat) (m : Marker) (rest : List Marker) :
    walkToBegin stop (depth + 1) (m :: rest)
      = match m.mirror.next depth with
        | none => .ok rest.length
        | some next => walkToBegin stop (next + 1) rest := by
  rw [walkToBegin]
  cases m with
  | plain => rfl
  | groupBegin =>
    by_cases hzero : depth = 0
    · subst hzero
      rfl
    · have hpos : depth - 1 + 1 = depth := by omega
      simp [Marker.next, Marker.mirror, Marker.closes, Marker.opens, hzero, hpos]
  | divider =>
    by_cases hzero : depth = 0
    · subst hzero
      rfl
    · simp [Marker.next, Marker.mirror, Marker.closes, Marker.opens, hzero]
  | groupEnd => rfl

/-- **The walk back ends where the mirrored level is left.** -/
theorem walkToBegin_eq (stop depth idx : Nat) (ms : List Marker) :
    walkToBegin stop (depth + 1) ms
      = match exit? depth idx (ms.map Marker.mirror) with
        | none => .error (.blockNeverOpened stop)
        | some x => .ok x.behind.length := by
  induction ms generalizing depth idx with
  | nil => rfl
  | cons m ms ih =>
    rw [walkToBegin_cons, List.map_cons, exit?]
    cases m.mirror.next depth with
    | none =>
      dsimp only
      rw [List.length_map]
    | some next => exact ih next (idx + 1)

theorem walkToBegin_eq_ok_iff {stop start : Nat} {ms : List Marker} :
    walkToBegin stop 1 ms = .ok start ↔
      ∃ x, exit? 0 0 (ms.map Marker.mirror) = some x ∧ x.behind.length = start := by
  rw [walkToBegin_eq stop 0 0]
  cases exit? 0 0 (ms.map Marker.mirror) with
  | none => simp
  | some x => simp

theorem error_of_walkToBegin {stop : Nat} {ms : List Marker} {e : StructureError}
    (h : walkToBegin stop 1 ms = .error e) : e = .blockNeverOpened stop := by
  rw [walkToBegin_eq stop 0 0] at h
  cases hexit : exit? 0 0 (ms.map Marker.mirror) with
  | none =>
    rw [hexit] at h
    exact (Except.error.inj h).symm
  | some x =>
    rw [hexit] at h
    cases h

/-! ## Paired markers -/

/-- Whether a block begins at one place and ends at another, with balanced markers between. -/
def Paired (ms : List Marker) (start stop : Nat) : Prop :=
  ∃ front opening inner closing back, ms = front ++ opening :: (inner ++ closing :: back) ∧
    opening.opens = true ∧ closing.closes = true ∧ Balanced inner ∧
    start = front.length ∧ stop = front.length + 1 + inner.length

theorem eq_take_cons_drop {α : Type} {items : List α} {n : Nat} {item : α}
    (h : items[n]? = some item) : items = items.take n ++ item :: items.drop (n + 1) := by
  obtain ⟨hlt, rfl⟩ := List.getElem?_eq_some_iff.mp h
  rw [← List.drop_eq_getElem_cons hlt, List.take_append_drop]

theorem drop_append_cons {α : Type} (front back : List α) (item : α) :
    (front ++ item :: back).drop (front.length + 1) = back := by
  rw [List.drop_append, List.drop_eq_nil_of_le (Nat.le_succ _), Nat.add_sub_cancel_left]
  rfl

theorem getElem?_append_cons {α : Type} (front back : List α) (item : α) :
    (front ++ item :: back)[front.length]? = some item := by
  rw [List.getElem?_append_right (Nat.le_refl _), Nat.sub_self]
  rfl

/-- The closing marker of two is at the end of what stands up to it. -/
theorem append_cons_append_cons {α : Type} (front inner back : List α) (opening closing : α) :
    front ++ opening :: (inner ++ closing :: back)
      = (front ++ opening :: inner) ++ closing :: back := by
  rw [List.append_assoc, List.cons_append]

theorem length_append_cons {α : Type} (front inner : List α) (opening : α) :
    (front ++ opening :: inner).length = front.length + 1 + inner.length := by
  rw [List.length_append, List.length_cons]
  omega

/-- Behind a begin the level is left at the paired marker. -/
theorem exit?_of_paired {ms : List Marker} {start stop : Nat} (h : Paired ms start stop) :
    ∃ m, ms[stop]? = some m ∧ m.closes = true ∧
      exit? 0 (start + 1) (ms.drop (start + 1)) = some ⟨stop, m, ms.drop (stop + 1)⟩ := by
  obtain ⟨front, opening, inner, closing, back, rfl, hopens, hcloses, hinner, rfl, rfl⟩ := h
  refine ⟨closing, ?_, hcloses, ?_⟩
  · rw [append_cons_append_cons, ← length_append_cons front inner opening]
    exact getElem?_append_cons _ back closing
  · have hback : (front ++ opening :: (inner ++ closing :: back)).drop
        (front.length + 1 + inner.length + 1) = back := by
      rw [append_cons_append_cons, ← length_append_cons front inner opening, drop_append_cons]
    rw [hback, drop_append_cons]
    exact exit?_append hinner hcloses back

theorem paired_of_exit? {ms : List Marker} {start : Nat} {m : Marker} {x : Exit}
    (hm : ms[start]? = some m) (hopens : m.opens = true)
    (h : exit? 0 (start + 1) (ms.drop (start + 1)) = some x) : Paired ms start x.place := by
  obtain ⟨inner, hdrop, hinner, hcloses, hplace⟩ := exit?_eq_some_iff.mp h
  have hlength : start = (ms.take start).length := by
    obtain ⟨hlt, -⟩ := List.getElem?_eq_some_iff.mp hm
    rw [List.length_take]
    omega
  refine ⟨ms.take start, m, inner, x.marker, x.behind, ?_, hopens, hcloses, hinner, hlength, ?_⟩
  · rw [← hdrop]
    exact eq_take_cons_drop hm
  · rw [← hlength]
    exact hplace

theorem walkToEnd_iff_paired {ms : List Marker} {start stop : Nat} {m : Marker}
    (hm : ms[start]? = some m) (hopens : m.opens = true) :
    walkToEnd start 1 (start + 1) (ms.drop (start + 1)) = .ok stop ↔ Paired ms start stop := by
  rw [walkToEnd_eq_ok_iff]
  constructor
  · rintro ⟨x, hexit, rfl⟩
    exact paired_of_exit? hm hopens hexit
  · intro h
    obtain ⟨closing, -, -, hexit⟩ := exit?_of_paired h
    exact ⟨_, hexit, rfl⟩

theorem walkToBegin_iff_paired {ms : List Marker} {start stop : Nat} {m : Marker}
    (hm : ms[stop]? = some m) (hcloses : m.closes = true) :
    walkToBegin stop 1 (ms.take stop).reverse = .ok start ↔ Paired ms start stop := by
  rw [walkToBegin_eq_ok_iff, ← mirrored]
  constructor
  · rintro ⟨x, hexit, rfl⟩
    obtain ⟨inner, hmirrored, hinner, hopens, -⟩ := exit?_eq_some_iff.mp hexit
    -- what is in front of the marker, read from the begin again
    have hfront : ms.take stop = mirrored x.behind ++ x.marker.mirror :: mirrored inner := by
      rw [← mirrored_append_cons, ← hmirrored, mirrored_mirrored]
    have hlength : stop = (mirrored x.behind).length + 1 + (mirrored inner).length := by
      have htaken := congrArg List.length hfront
      obtain ⟨hlt, -⟩ := List.getElem?_eq_some_iff.mp hm
      rw [List.length_take, length_append_cons] at htaken
      omega
    refine ⟨mirrored x.behind, x.marker.mirror, mirrored inner, m, ms.drop (stop + 1), ?_, ?_,
      hcloses, balanced_mirrored.mpr hinner, (length_mirrored _).symm, hlength⟩
    · rw [← List.cons_append, ← List.append_assoc, ← hfront]
      exact eq_take_cons_drop hm
    · rw [Marker.opens_mirror]
      exact hopens
  · rintro ⟨front, opening, inner, closing, back, rfl, hopens, -, hinner, rfl, rfl⟩
    have hmirrored : (opening.mirror).closes = true := by
      rw [Marker.closes_mirror]
      exact hopens
    rw [append_cons_append_cons, ← length_append_cons front inner opening, List.take_left' rfl,
      mirrored_append_cons]
    exact ⟨_, exit?_append (balanced_mirrored.mpr hinner) hmirrored _, length_mirrored front⟩

/-- Paired markers in terms of the places. -/
theorem paired_iff {ms : List Marker} {start stop : Nat} :
    Paired ms start stop ↔ start < stop ∧ (∃ m, ms[start]? = some m ∧ m.opens = true) ∧
      (∃ m, ms[stop]? = some m ∧ m.closes = true) ∧
      Balanced ((ms.take stop).drop (start + 1)) := by
  constructor
  · intro h
    obtain ⟨closing, hstop, hcloses, -⟩ := exit?_of_paired h
    obtain ⟨front, opening, inner, _, back, rfl, hopens, -, hinner, rfl, rfl⟩ := h
    refine ⟨by omega, ⟨opening, getElem?_append_cons front _ opening, hopens⟩,
      ⟨closing, hstop, hcloses⟩, ?_⟩
    rw [append_cons_append_cons, ← length_append_cons front inner opening, List.take_left' rfl,
      drop_append_cons]
    exact hinner
  · rintro ⟨hlt, ⟨opening, hstart, hopens⟩, ⟨closing, hstop, hcloses⟩, hinner⟩
    -- the closing marker is the first one behind those in between
    have hbehind : (ms.drop (start + 1))[stop - (start + 1)]? = some closing := by
      rw [List.getElem?_drop, show start + 1 + (stop - (start + 1)) = stop by omega]
      exact hstop
    have hfront : (ms.take start).length = start := by
      obtain ⟨hin, -⟩ := List.getElem?_eq_some_iff.mp hstart
      rw [List.length_take]
      omega
    have hlength : ((ms.take stop).drop (start + 1)).length = stop - (start + 1) := by
      obtain ⟨hin, -⟩ := List.getElem?_eq_some_iff.mp hstop
      rw [List.length_drop, List.length_take]
      omega
    refine ⟨ms.take start, opening, (ms.take stop).drop (start + 1), closing,
      (ms.drop (start + 1)).drop (stop - (start + 1) + 1), ?_, hopens, hcloses, hinner,
      hfront.symm, ?_⟩
    · rw [List.drop_take, ← eq_take_cons_drop hbehind]
      exact eq_take_cons_drop hstart
    · rw [hfront, hlength]
      omega

/-! ## Between two places -/

/-- The items strictly between two places. -/
def between {α : Type} (items : List α) (start stop : Nat) : List α :=
  (items.take stop).drop (start + 1)

section Between

variable {α : Type} {items : List α} {a b c : Nat}

theorem between_eq_take (items : List α) (hcb : c ≤ b) :
    between items a c = (between items a b).take (c - (a + 1)) := by
  rw [between, between, List.drop_take, List.drop_take, List.take_take]
  congr 1
  omega

/-- A stretch goes on with the item behind it. -/
theorem stretch_succ {item : α} {k n : Nat} (hk : k ≤ n) (hn : items[n]? = some item) :
    (items.take (n + 1)).drop k = (items.take n).drop k ++ [item] := by
  obtain ⟨hlt, -⟩ := List.getElem?_eq_some_iff.mp hn
  have hlength : k ≤ (items.take n).length := by
    rw [List.length_take]
    omega
  rw [List.take_add_one, hn, Option.toList_some, List.drop_append_of_le_length hlength]

/-- A stretch is cut at an item of it. -/
theorem stretch_split {item : α} {k c n : Nat} (hkc : k ≤ c) (hcn : c < n)
    (hc : items[c]? = some item) :
    (items.take n).drop k = (items.take c).drop k ++ item :: between items c n := by
  have htaken : (items.take n)[c]? = some item := by
    rw [List.getElem?_take_of_lt hcn]
    exact hc
  have hlength : k ≤ (items.take c).length := by
    obtain ⟨hlt, -⟩ := List.getElem?_eq_some_iff.mp hc
    rw [List.length_take]
    omega
  have hsplit := eq_take_cons_drop htaken
  rw [List.take_take, Nat.min_eq_left (Nat.le_of_lt hcn)] at hsplit
  have hdrop := congrArg (List.drop k) hsplit
  rw [List.drop_append_of_le_length hlength] at hdrop
  exact hdrop

theorem between_split {item : α} (hac : a < c) (hcb : c < b) (hc : items[c]? = some item) :
    between items a b = between items a c ++ item :: between items c b :=
  stretch_split hac hcb hc

/-- An item of a stretch, and what is on either side of it. -/
theorem of_stretch_eq {front back : List α} {item : α} {k : Nat}
    (h : (items.take b).drop k = front ++ item :: back) (hc : c = k + front.length) :
    c < b ∧ items[c]? = some item ∧ (items.take c).drop k = front ∧ between items c b = back := by
  have hlength := congrArg List.length h
  rw [List.length_drop, List.length_take, List.length_append, List.length_cons] at hlength
  have hitem : ((items.take b).drop k)[front.length]? = some item := by
    rw [h]
    exact getElem?_append_cons front back item
  refine ⟨by omega, ?_, ?_, ?_⟩
  · rw [List.getElem?_drop, ← hc, List.getElem?_take_of_lt (by omega)] at hitem
    exact hitem
  · have htake : (items.take c).drop k = ((items.take b).drop k).take (c - k) := by
      rw [List.drop_take, List.drop_take, List.take_take]
      congr 1
      omega
    rw [htake, h, hc, Nat.add_sub_cancel_left]
    exact List.take_left
  · have hdrop := congrArg (List.drop (front.length + 1)) h
    rw [drop_append_cons, List.drop_drop] at hdrop
    rw [← hdrop, between, hc, Nat.add_assoc]

/-- An item between two places, and what is on either side of it. -/
theorem of_between_eq {front back : List α} {item : α}
    (h : between items a b = front ++ item :: back) (hc : c = a + 1 + front.length) :
    a < c ∧ c < b ∧ items[c]? = some item ∧ between items a c = front ∧
      between items c b = back :=
  ⟨by omega, of_stretch_eq h hc⟩

end Between

/-! ## Blocks that are open at a place -/

/-- Whether a block begins in front of a place and is the innermost one that is open there. -/
structure OpensAt (ms : List Marker) (block n : Nat) : Prop where
  lt : block < n
  begins : ∃ m, ms[block]? = some m ∧ m.opens = true
  balanced : Balanced (between ms block n)

section Blocks

variable {ms : List Marker} {a b c d k n : Nat}

theorem paired_iff_opensAt :
    Paired ms b n ↔ OpensAt ms b n ∧ ∃ m, ms[n]? = some m ∧ m.closes = true := by
  rw [paired_iff]
  constructor
  · rintro ⟨hlt, hbegin, hend, hbalanced⟩
    exact ⟨⟨hlt, hbegin, hbalanced⟩, hend⟩
  · rintro ⟨⟨hlt, hbegin, hbalanced⟩, hend⟩
    exact ⟨hlt, hbegin, hend, hbalanced⟩

/-- **A block that begins in a balanced stretch ends in it.** -/
theorem exists_paired_of_balanced (h : Balanced ((ms.take n).drop k)) (hkc : k ≤ c) (hcn : c < n)
    (hbegin : ∃ m, ms[c]? = some m ∧ m.opens = true) : ∃ d, Paired ms c d ∧ d < n := by
  obtain ⟨m, hm, hopens⟩ := hbegin
  rw [stretch_split hkc hcn hm, Balanced, depthAfter_append] at h
  cases hfront : depthAfter 0 ((ms.take c).drop k) with
  | none =>
    rw [hfront] at h
    cases h
  | some depth =>
    rw [hfront, Option.bind_some] at h
    -- the marker leaves its own group open behind it
    have hopen : ∃ depth', m.next depth = some (depth' + 1) := by
      cases m with
      | plain => cases hopens
      | groupEnd => cases hopens
      | groupBegin => exact ⟨depth, rfl⟩
      | divider =>
        cases depth with
        | zero => cases h
        | succ depth => exact ⟨depth, rfl⟩
    obtain ⟨depth', hnext⟩ := hopen
    rw [depthAfter_cons_of_next hnext] at h
    obtain ⟨inner, closing, back, hbetween, hbalanced, hcloses⟩ := exists_balanced_of_depthAfter h
    obtain ⟨hcd, hdn, hend, hinside, -⟩ := of_between_eq hbetween rfl
    refine ⟨_, paired_iff.mpr ⟨hcd, ⟨m, hm, hopens⟩, ⟨closing, hend, hcloses⟩, ?_⟩, hdn⟩
    rw [← between, hinside]
    exact hbalanced

/-- **Where groups are open behind a stretch, a block of it is open there.** -/
theorem exists_opensAt_of_depthAfter {depth : Nat}
    (h : depthAfter 0 ((ms.take n).drop k) = some (depth + 1)) : ∃ b, k ≤ b ∧ OpensAt ms b n := by
  -- read from the place, the groups that are open there are ended
  obtain ⟨inner, m, back, hmirrored, hbalanced, hcloses⟩ :=
    exists_balanced_of_depthAfter (depthAfter_mirrored h)
  have hstretch : (ms.take n).drop k = mirrored back ++ m.mirror :: mirrored inner := by
    rw [← mirrored_append_cons, ← hmirrored, mirrored_mirrored]
  obtain ⟨hlt, hbegin, -, hinside⟩ := of_stretch_eq hstretch rfl
  refine ⟨_, Nat.le_add_right k _, hlt, ⟨_, hbegin, ?_⟩, ?_⟩
  · rw [Marker.opens_mirror]
    exact hcloses
  · rw [hinside]
    exact balanced_mirrored.mpr hbalanced

/-- **A block that begins in balanced markers ends in them.** -/
theorem exists_paired_of_opens (h : Balanced ms) (hbegin : ∃ m, ms[b]? = some m ∧ m.opens = true) :
    ∃ e, Paired ms b e := by
  obtain ⟨m, hm, hopens⟩ := hbegin
  obtain ⟨hlt, -⟩ := List.getElem?_eq_some_iff.mp hm
  have hstretch : Balanced ((ms.take ms.length).drop 0) := by
    rwa [List.drop_zero, List.take_length]
  obtain ⟨e, hpaired, -⟩ := exists_paired_of_balanced hstretch (Nat.zero_le b) hlt ⟨m, hm, hopens⟩
  exact ⟨e, hpaired⟩

/-- **A block that ends in balanced markers begins in them.** -/
theorem exists_paired_of_closes (h : Balanced ms) (hend : ∃ m, ms[n]? = some m ∧ m.closes = true) :
    ∃ b, Paired ms b n := by
  obtain ⟨m, hm, hcloses⟩ := hend
  rw [Balanced, eq_take_cons_drop hm, depthAfter_append] at h
  cases hfront : depthAfter 0 (ms.take n) with
  | none =>
    rw [hfront] at h
    cases h
  | some depth =>
    cases depth with
    | zero =>
      rw [hfront, Option.bind_some, depthAfter, Marker.next_zero_of_closes hcloses] at h
      cases h
    | succ depth =>
      obtain ⟨b, -, hopens⟩ := exists_opensAt_of_depthAfter (k := 0) hfront
      exact ⟨b, paired_iff_opensAt.mpr ⟨hopens, m, hm, hcloses⟩⟩

theorem Paired.unique (h : Paired ms b c) (h' : Paired ms b d) : c = d := by
  obtain ⟨-, ⟨m, hm, hopens⟩, -⟩ := paired_iff.mp h
  have hwalk := (walkToEnd_iff_paired hm hopens).mpr h
  rw [(walkToEnd_iff_paired hm hopens).mpr h'] at hwalk
  exact (Except.ok.inj hwalk).symm

/-- A block that is open at a place does not end in front of it. -/
theorem OpensAt.le_of_paired (h : OpensAt ms b n) (h' : Paired ms b c) : n ≤ c := by
  refine Nat.le_of_not_lt fun hlt => ?_
  obtain ⟨hbc, -, ⟨m, hm, hcloses⟩, hbetween⟩ := paired_iff.mp h'
  have hinner : Balanced (between ms b c) := hbetween
  have hbalanced := h.balanced
  rw [Balanced, between_split hbc hlt hm, depthAfter_append_of_some hinner, depthAfter,
    Marker.next_zero_of_closes hcloses] at hbalanced
  cases hbalanced

/-- Where the markers up to a place are balanced, no block is around it. -/
theorem not_paired_around (h : Balanced ((ms.take n).drop k)) (hk : k ≤ b) (hbn : b < n)
    (hnc : n ≤ c) : ¬Paired ms b c := by
  intro hpaired
  obtain ⟨d, hpaired', hdn⟩ := exists_paired_of_balanced h hk hbn (paired_iff.mp hpaired).2.1
  obtain rfl := hpaired.unique hpaired'
  omega

/-- **Of the blocks around a place, the one that is open there is inside all others.** -/
theorem OpensAt.innermost (h : OpensAt ms b n) (h' : Paired ms b c) (hother : Paired ms a d)
    (han : a < n) (hnd : n ≤ d) : (a = b ∧ d = c) ∨ (a < b ∧ c < d) := by
  rcases Nat.lt_trichotomy a b with hab | rfl | hba
  · -- the block begins inside of the other one
    refine .inr ⟨hab, ?_⟩
    have hlt := h.lt
    have hinner : Balanced ((ms.take d).drop (a + 1)) := (paired_iff.mp hother).2.2.2
    obtain ⟨e, hpaired, hed⟩ := exists_paired_of_balanced hinner hab (by omega) h.begins
    obtain rfl := h'.unique hpaired
    exact hed
  · exact .inl ⟨rfl, hother.unique h'⟩
  · exact absurd hother (not_paired_around h.balanced hba han hnd)

end Blocks

end FlatCode
