import FlatCode.Proofs.Block.Enumeration

/-!
# The grammar of markers

A program is a sequence of items; an item is an instruction that is no marker, or a group. A group
is its begin, a body, any number of further bodies with a divider in front of each, and its end. The
trees of this grammar are `Items` and `Sections`, and `markers` is what they derive.

A balanced list has one tree: `exists_items_of_depthAfter` builds it from the end of the list, with
the bodies that are still to be begun on a stack, and `Items.unique` reads it off the list from the
front. The enumeration of groups lists the groups of the tree, inner ones first.

* `balanced_iff_exists_items` — the balanced lists are those that a tree derives
* `Items.eq_of_markers` — by one tree only
-/

namespace FlatCode

/-! ## Trees -/

mutual

/-- A sequence of instructions that are no markers, and of groups. -/
inductive Items where
  | empty
  | plain (rest : Items)
  | group (body : Items) (more : Sections) (rest : Items)

/-- What stands in a group behind its first body. -/
inductive Sections where
  | close
  | divide (body : Items) (more : Sections)

end

mutual

/-- The markers that a sequence of items derives. -/
def Items.markers : Items → List Marker
  | .empty => []
  | .plain rest => .plain :: rest.markers
  | .group body more rest => .groupBegin :: (body.markers ++ (more.markers ++ rest.markers))

/-- The markers that the sections of a group derive. -/
def Sections.markers : Sections → List Marker
  | .close => [.groupEnd]
  | .divide body more => .divider :: (body.markers ++ more.markers)

end

/-- The places of the dividers and of the end of a group, whose sections start at a place. -/
def Sections.boundaries : Nat → Sections → List Nat
  | idx, .close => [idx]
  | idx, .divide body more => idx :: more.boundaries (idx + 1 + body.markers.length)

mutual

/-- The boundaries of all groups in a sequence of items that starts at a place: the groups inside a
group are in front of it. -/
def Items.groups : Nat → Items → List (List Nat)
  | _, .empty => []
  | idx, .plain rest => rest.groups (idx + 1)
  | idx, .group body more rest =>
    body.groups (idx + 1) ++ (more.groups (idx + 1 + body.markers.length) ++
      ((idx :: more.boundaries (idx + 1 + body.markers.length)) ::
        rest.groups (idx + 1 + body.markers.length + more.markers.length)))

/-- The boundaries of all groups inside the sections of a group. -/
def Sections.groups : Nat → Sections → List (List Nat)
  | _, .close => []
  | idx, .divide body more =>
    body.groups (idx + 1) ++ more.groups (idx + 1 + body.markers.length)

end

/-! ## A tree for each balanced list -/

mutual

/-- Behind items the count is as it was in front of them. -/
theorem Items.depthAfter_markers : ∀ (t : Items) (depth : Nat),
    depthAfter depth t.markers = some depth
  | .empty, depth => by
    rw [Items.markers]
    rfl
  | .plain rest, depth => by
    rw [Items.markers]
    exact Items.depthAfter_markers rest depth
  | .group body more rest, depth => by
    have hbody := Items.depthAfter_markers body (depth + 1)
    have hmore := Sections.depthAfter_markers more depth
    rw [Items.markers, depthAfter_cons_of_next rfl, depthAfter_append_of_some hbody,
      depthAfter_append_of_some hmore]
    exact Items.depthAfter_markers rest depth

theorem Sections.depthAfter_markers : ∀ (s : Sections) (depth : Nat),
    depthAfter (depth + 1) s.markers = some depth
  | .close, depth => by
    rw [Sections.markers]
    rfl
  | .divide body more, depth => by
    have hbody := Items.depthAfter_markers body (depth + 1)
    rw [Sections.markers, depthAfter_cons_of_next rfl, depthAfter_append_of_some hbody]
    exact Sections.depthAfter_markers more depth

end

/-- What groups that are open around a sequence of items derive: their sections, and the items
behind them. -/
def outerMarkers (outer : List (Sections × Items)) : List Marker :=
  outer.flatMap fun frame => frame.1.markers ++ frame.2.markers

/-- A list that ends all groups open in front of it and no others is items, and for each of these
groups its sections and the items behind it. -/
theorem exists_items_of_depthAfter {depth : Nat} {ms : List Marker}
    (h : depthAfter depth ms = some 0) :
    ∃ (t : Items) (outer : List (Sections × Items)), outer.length = depth ∧
      ms = t.markers ++ outerMarkers outer := by
  induction ms generalizing depth with
  | nil =>
    cases h
    exact ⟨.empty, [], rfl, rfl⟩
  | cons m ms ih =>
    cases hnext : m.next depth with
    | none =>
      rw [depthAfter, hnext] at h
      cases h
    | some next =>
      rw [depthAfter_cons_of_next hnext] at h
      obtain ⟨t, outer, hlength, rfl⟩ := ih h
      -- what is behind the marker is a tree already, and the marker goes in front of it
      cases m with
      | plain =>
        cases hnext
        exact ⟨.plain t, outer, hlength, by rw [Items.markers]; rfl⟩
      | groupBegin =>
        cases hnext
        -- the innermost open group begins here, and is complete
        cases outer with
        | nil => cases hlength
        | cons frame outer =>
          refine ⟨.group t frame.1 frame.2, outer, by simpa using hlength, ?_⟩
          rw [Items.markers, outerMarkers, List.flatMap_cons]
          simp [outerMarkers]
      | divider =>
        by_cases hzero : depth = 0
        · rw [Marker.next, if_pos hzero] at hnext
          cases hnext
        rw [Marker.next, if_neg hzero] at hnext
        cases hnext
        cases outer with
        | nil => exact absurd hlength.symm hzero
        | cons frame outer =>
          refine ⟨.empty, (.divide t frame.1, frame.2) :: outer, hlength, ?_⟩
          rw [Items.markers, outerMarkers, outerMarkers, List.flatMap_cons, List.flatMap_cons,
            Sections.markers]
          simp
      | groupEnd =>
        by_cases hzero : depth = 0
        · rw [Marker.next, if_pos hzero] at hnext
          cases hnext
        rw [Marker.next, if_neg hzero] at hnext
        cases hnext
        refine ⟨.empty, (.close, t) :: outer, ?_, ?_⟩
        · rw [List.length_cons]
          omega
        · rw [Items.markers, outerMarkers, outerMarkers, List.flatMap_cons, Sections.markers]
          simp

/-- **The balanced lists are those that a tree derives.** -/
theorem balanced_iff_exists_items {ms : List Marker} :
    Balanced ms ↔ ∃ t : Items, t.markers = ms := by
  constructor
  · intro h
    obtain ⟨t, outer, hlength, rfl⟩ := exists_items_of_depthAfter h
    obtain rfl := List.length_eq_zero_iff.mp hlength
    exact ⟨t, (List.append_nil _).symm⟩
  · rintro ⟨t, rfl⟩
    exact t.depthAfter_markers 0

/-! ## One tree only -/

/-- Whether items in front of a list are over. -/
def StopsItems (ms : List Marker) : Prop := ∀ m ∈ ms.head?, m.closes = true

theorem stopsItems_sections (s : Sections) (back : List Marker) :
    StopsItems (s.markers ++ back) := by
  intro m hm
  cases s with
  | close =>
    rw [Sections.markers] at hm
    cases hm
    rfl
  | divide body more =>
    rw [Sections.markers] at hm
    cases hm
    rfl

theorem not_stopsItems_cons {m : Marker} (h : m.closes = false) (ms : List Marker) :
    ¬StopsItems (m :: ms) := by
  intro hstops
  have hcloses := hstops m rfl
  rw [h] at hcloses
  cases hcloses

mutual

/-- **A list starts with the markers of one sequence of items**, up to where items stop. -/
theorem Items.unique : ∀ (t t' : Items) {back back' : List Marker},
    t.markers ++ back = t'.markers ++ back' → StopsItems back → StopsItems back' →
      t = t' ∧ back = back'
  | .empty, .empty, _, _, h, _, _ => by
    rw [Items.markers] at h
    exact ⟨rfl, h⟩
  | .empty, .plain rest', back, back', h, hstops, _ => by
    rw [Items.markers, Items.markers, List.nil_append] at h
    rw [h] at hstops
    exact absurd hstops (not_stopsItems_cons rfl _)
  | .empty, .group body' more' rest', back, back', h, hstops, _ => by
    rw [Items.markers, Items.markers, List.nil_append] at h
    rw [h] at hstops
    exact absurd hstops (not_stopsItems_cons rfl _)
  | .plain rest, .empty, back, back', h, _, hstops' => by
    rw [Items.markers, Items.markers, List.nil_append] at h
    rw [← h] at hstops'
    exact absurd hstops' (not_stopsItems_cons rfl _)
  | .plain rest, .plain rest', back, back', h, hstops, hstops' => by
    rw [Items.markers, Items.markers] at h
    obtain ⟨rfl, hback⟩ := Items.unique rest rest' (List.cons.inj h).2 hstops hstops'
    exact ⟨rfl, hback⟩
  | .plain rest, .group body' more' rest', back, back', h, _, _ => by
    rw [Items.markers, Items.markers] at h
    cases (List.cons.inj h).1
  | .group body more rest, .empty, back, back', h, _, hstops' => by
    rw [Items.markers, Items.markers, List.nil_append] at h
    rw [← h] at hstops'
    exact absurd hstops' (not_stopsItems_cons rfl _)
  | .group body more rest, .plain rest', back, back', h, _, _ => by
    rw [Items.markers, Items.markers] at h
    cases (List.cons.inj h).1
  | .group body more rest, .group body' more' rest', back, back', h, hstops, hstops' => by
    rw [Items.markers, Items.markers] at h
    simp only [List.cons_append, List.append_assoc] at h
    -- both bodies stop where the sections start, so they are one
    have htail := (List.cons.inj h).2
    obtain ⟨rfl, hmore⟩ := Items.unique body body' htail (stopsItems_sections more _)
      (stopsItems_sections more' _)
    obtain ⟨rfl, hrest⟩ := Sections.unique more more' hmore
    obtain ⟨rfl, hback⟩ := Items.unique rest rest' hrest hstops hstops'
    exact ⟨rfl, hback⟩

theorem Sections.unique : ∀ (s s' : Sections) {back back' : List Marker},
    s.markers ++ back = s'.markers ++ back' → s = s' ∧ back = back'
  | .close, .close, _, _, h => by
    rw [Sections.markers] at h
    exact ⟨rfl, (List.cons.inj h).2⟩
  | .close, .divide body' more', _, _, h => by
    rw [Sections.markers, Sections.markers] at h
    cases (List.cons.inj h).1
  | .divide body more, .close, _, _, h => by
    rw [Sections.markers, Sections.markers] at h
    cases (List.cons.inj h).1
  | .divide body more, .divide body' more', back, back', h => by
    rw [Sections.markers, Sections.markers] at h
    simp only [List.cons_append, List.append_assoc] at h
    have htail := (List.cons.inj h).2
    obtain ⟨rfl, hmore⟩ := Items.unique body body' htail (stopsItems_sections more _)
      (stopsItems_sections more' _)
    obtain ⟨rfl, hback⟩ := Sections.unique more more' hmore
    exact ⟨rfl, hback⟩

end

theorem Items.eq_of_markers {t t' : Items} (h : t.markers = t'.markers) : t = t' := by
  have hstops : StopsItems [] := by
    intro m hm
    cases hm
  have happend : t.markers ++ [] = t'.markers ++ [] := by rw [h]
  exact (Items.unique t t' happend hstops hstops).1

end FlatCode
