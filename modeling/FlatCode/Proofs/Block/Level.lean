import FlatCode.Operation.Basic

/-!
# Levels of markers

Along a list of markers the number of open groups goes up and down (`depthAfter`); it has no value
where a marker ends a block and no group is open. A list is balanced (`Balanced`) if every group of
it is ended in it and none that is not.

* `exit?_eq_some_iff` — where the count has no value, the list leaves its level (`exit?`)
* `exists_balanced_of_depthAfter` — it does so where it ends a group that is open in front of it
* `depthAfter_mirror` — read from the end, with begins and ends exchanged, the count runs backwards
-/

namespace FlatCode

/-- The number of open groups behind a marker; none if the marker ends a block of no open group. -/
def Marker.next (depth : Nat) : Marker → Option Nat
  | .plain => some depth
  | .groupBegin => some (depth + 1)
  | .divider => if depth = 0 then none else some depth
  | .groupEnd => if depth = 0 then none else some (depth - 1)

/-- The number of open groups behind a list of markers. -/
def depthAfter : Nat → List Marker → Option Nat
  | depth, [] => some depth
  | depth, m :: rest => (m.next depth).bind fun next => depthAfter next rest

/-- Whether all groups that begin in a list end in it, and no others. -/
def Balanced (ms : List Marker) : Prop := depthAfter 0 ms = some 0

instance (ms : List Marker) : Decidable (Balanced ms) := inferInstanceAs (Decidable (_ = _))

theorem Marker.next_eq_none_iff {m : Marker} {depth : Nat} :
    m.next depth = none ↔ depth = 0 ∧ m.closes = true := by
  cases m <;> simp [Marker.next, Marker.closes]

theorem Marker.next_zero_of_closes {m : Marker} (h : m.closes = true) : m.next 0 = none :=
  Marker.next_eq_none_iff.mpr ⟨rfl, h⟩

theorem depthAfter_cons_of_next {m : Marker} {depth next : Nat} (h : m.next depth = some next)
    (rest : List Marker) : depthAfter depth (m :: rest) = depthAfter next rest := by
  rw [depthAfter, h, Option.bind_some]

theorem depthAfter_append (depth : Nat) (front back : List Marker) :
    depthAfter depth (front ++ back)
      = (depthAfter depth front).bind fun d => depthAfter d back := by
  induction front generalizing depth with
  | nil => rfl
  | cons m front ih =>
    rw [List.cons_append, depthAfter, depthAfter]
    cases m.next depth with
    | none => rfl
    | some next => exact ih next

theorem depthAfter_append_of_some {depth next : Nat} {front : List Marker}
    (h : depthAfter depth front = some next) (back : List Marker) :
    depthAfter depth (front ++ back) = depthAfter next back := by
  rw [depthAfter_append, h, Option.bind_some]

theorem Marker.next_add {m : Marker} {depth next : Nat} (outer : Nat)
    (h : m.next depth = some next) : m.next (depth + outer) = some (next + outer) := by
  cases m with
  | plain =>
    cases h
    rfl
  | groupBegin =>
    cases h
    rw [Marker.next, Nat.add_right_comm]
  | divider =>
    by_cases hzero : depth = 0
    · rw [Marker.next, if_pos hzero] at h
      cases h
    · rw [Marker.next, if_neg hzero] at h
      cases h
      exact if_neg (by omega)
  | groupEnd =>
    by_cases hzero : depth = 0
    · rw [Marker.next, if_pos hzero] at h
      cases h
    · rw [Marker.next, if_neg hzero] at h
      cases h
      rw [Marker.next, if_neg (by omega)]
      congr 1
      omega

/-- Groups that are open around a list are open behind it too. -/
theorem depthAfter_add {depth next : Nat} {ms : List Marker} (outer : Nat)
    (h : depthAfter depth ms = some next) :
    depthAfter (depth + outer) ms = some (next + outer) := by
  induction ms generalizing depth with
  | nil =>
    cases h
    rfl
  | cons m ms ih =>
    cases hnext : m.next depth with
    | none =>
      rw [depthAfter, hnext] at h
      cases h
    | some middle =>
      rw [depthAfter_cons_of_next hnext] at h
      rw [depthAfter_cons_of_next (Marker.next_add outer hnext)]
      exact ih h

/-! ## Leaving a level -/

/-- A marker at which a list leaves its level, with the place of it and what is behind it. -/
structure Exit where
  place : Nat
  marker : Marker
  behind : List Marker

/-- The first marker of a list that ends a block of no open group. -/
def exit? : Nat → Nat → List Marker → Option Exit
  | _, _, [] => none
  | depth, idx, m :: rest =>
    match m.next depth with
    | none => some ⟨idx, m, rest⟩
    | some next => exit? next (idx + 1) rest

theorem exit?_append {depth idx : Nat} {inner : List Marker} {m : Marker}
    (hinner : depthAfter depth inner = some 0) (hm : m.closes = true) (rest : List Marker) :
    exit? depth idx (inner ++ m :: rest) = some ⟨idx + inner.length, m, rest⟩ := by
  induction inner generalizing depth idx with
  | nil =>
    cases hinner
    rw [List.nil_append, exit?, Marker.next_zero_of_closes hm]
    rfl
  | cons m' inner ih =>
    rw [List.cons_append, exit?]
    cases hnext : m'.next depth with
    | none =>
      rw [depthAfter, hnext] at hinner
      cases hinner
    | some next =>
      rw [depthAfter_cons_of_next hnext] at hinner
      have hlength : idx + 1 + inner.length = idx + (m' :: inner).length := by
        rw [List.length_cons]
        omega
      rw [← hlength]
      exact ih hinner

/-- **A list leaves its level at a marker that ends a block**, behind markers that end all groups
that are open. -/
theorem exit?_eq_some_iff {depth idx : Nat} {ms : List Marker} {x : Exit} :
    exit? depth idx ms = some x ↔ ∃ inner, ms = inner ++ x.marker :: x.behind ∧
      depthAfter depth inner = some 0 ∧ x.marker.closes = true ∧ x.place = idx + inner.length := by
  constructor
  · intro h
    induction ms generalizing depth idx with
    | nil => cases h
    | cons m ms ih =>
      rw [exit?] at h
      cases hnext : m.next depth with
      | none =>
        rw [hnext] at h
        cases h
        obtain ⟨rfl, hcloses⟩ := Marker.next_eq_none_iff.mp hnext
        exact ⟨[], rfl, rfl, hcloses, rfl⟩
      | some next =>
        rw [hnext] at h
        obtain ⟨inner, rfl, hinner, hcloses, hplace⟩ := ih h
        refine ⟨m :: inner, rfl, ?_, hcloses, ?_⟩
        · rw [depthAfter_cons_of_next hnext]
          exact hinner
        · rw [hplace, List.length_cons]
          omega
  · rintro ⟨inner, rfl, hinner, hcloses, hplace⟩
    rw [exit?_append hinner hcloses, ← hplace]

/-- A list that does not leave its level has a number of open groups behind it. -/
theorem exists_depthAfter_of_exit? {depth idx : Nat} {ms : List Marker}
    (h : exit? depth idx ms = none) : ∃ next, depthAfter depth ms = some next := by
  induction ms generalizing depth idx with
  | nil => exact ⟨depth, rfl⟩
  | cons m ms ih =>
    rw [exit?] at h
    cases hnext : m.next depth with
    | none =>
      rw [hnext] at h
      cases h
    | some next =>
      rw [hnext] at h
      rw [depthAfter_cons_of_next hnext]
      exact ih h

/-- **A list that ends a group that is open in front of it has a balanced part up to a marker that
ends a block.** -/
theorem exists_balanced_of_depthAfter {depth : Nat} {ms : List Marker}
    (h : depthAfter (depth + 1) ms = some 0) :
    ∃ inner m back, ms = inner ++ m :: back ∧ Balanced inner ∧ m.closes = true := by
  cases hexit : exit? 0 0 ms with
  | some x =>
    obtain ⟨inner, hms, hinner, hcloses, -⟩ := exit?_eq_some_iff.mp hexit
    exact ⟨inner, x.marker, x.behind, hms, hinner, hcloses⟩
  | none =>
    -- otherwise the open group would be open behind the list
    obtain ⟨next, hnext⟩ := exists_depthAfter_of_exit? hexit
    have hopen := depthAfter_add (depth + 1) hnext
    rw [Nat.zero_add, h] at hopen
    have hzero := Option.some.inj hopen
    omega

/-! ## Reading from the end -/

/-- The marker as it looks from behind. -/
def Marker.mirror : Marker → Marker
  | .plain => .plain
  | .groupBegin => .groupEnd
  | .divider => .divider
  | .groupEnd => .groupBegin

@[simp] theorem Marker.mirror_mirror (m : Marker) : m.mirror.mirror = m := by cases m <;> rfl

@[simp] theorem Marker.closes_mirror (m : Marker) : m.mirror.closes = m.opens := by
  cases m <;> rfl

@[simp] theorem Marker.opens_mirror (m : Marker) : m.mirror.opens = m.closes := by
  cases m <;> rfl

/-- The markers of a list as they look from behind. -/
def mirrored (ms : List Marker) : List Marker := ms.reverse.map Marker.mirror

@[simp] theorem length_mirrored (ms : List Marker) : (mirrored ms).length = ms.length := by
  rw [mirrored, List.length_map, List.length_reverse]

theorem mirrored_append_cons (front back : List Marker) (m : Marker) :
    mirrored (front ++ m :: back) = mirrored back ++ m.mirror :: mirrored front := by
  rw [mirrored, List.reverse_append, List.reverse_cons, List.append_assoc, List.singleton_append,
    List.map_append, List.map_cons]
  rfl

theorem mirrored_mirrored (ms : List Marker) : mirrored (mirrored ms) = ms := by
  have hid : Marker.mirror ∘ Marker.mirror = id := funext Marker.mirror_mirror
  unfold mirrored
  rw [List.map_reverse, List.map_map, hid, List.map_id, List.reverse_reverse]

theorem Marker.next_mirror {m : Marker} {depth next : Nat} (h : m.next depth = some next) :
    m.mirror.next next = some depth := by
  cases m with
  | plain =>
    cases h
    rfl
  | groupBegin =>
    cases h
    rfl
  | divider =>
    by_cases hzero : depth = 0
    · rw [Marker.next, if_pos hzero] at h
      cases h
    · rw [Marker.next, if_neg hzero] at h
      cases h
      exact if_neg hzero
  | groupEnd =>
    by_cases hzero : depth = 0
    · rw [Marker.next, if_pos hzero] at h
      cases h
    · rw [Marker.next, if_neg hzero] at h
      cases h
      rw [Marker.mirror, Marker.next]
      congr 1
      omega

theorem depthAfter_mirrored {depth next : Nat} {ms : List Marker}
    (h : depthAfter depth ms = some next) : depthAfter next (mirrored ms) = some depth := by
  induction ms generalizing depth with
  | nil =>
    cases h
    rfl
  | cons m ms ih =>
    cases hnext : m.next depth with
    | none =>
      rw [depthAfter, hnext] at h
      cases h
    | some middle =>
      rw [depthAfter_cons_of_next hnext] at h
      rw [mirrored, List.reverse_cons, List.map_append, ← mirrored,
        depthAfter_append_of_some (ih h), List.map_singleton,
        depthAfter_cons_of_next (Marker.next_mirror hnext)]
      rfl

/-- **The count runs backwards in the mirror.** -/
theorem depthAfter_mirror {depth next : Nat} {ms : List Marker} :
    depthAfter depth ms = some next ↔ depthAfter next (mirrored ms) = some depth := by
  constructor
  · exact depthAfter_mirrored
  · intro h
    have hback := depthAfter_mirrored h
    rwa [mirrored_mirrored] at hback

theorem balanced_mirrored {ms : List Marker} : Balanced (mirrored ms) ↔ Balanced ms :=
  depthAfter_mirror.symm

end FlatCode
