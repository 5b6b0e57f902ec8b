import Mathlib.Data.List.Forall2

/-!
# Results

What is known of a result that may be an error, in the forms in which the other modules meet it.
Results that come from a given text are decided: what they hold with `Except.toOption`, and with
what error they end with `failure?`. A question that is put to the items of a list one after the
other has an answer for each of them, or the error of the first one that has none.
-/

namespace FlatCode

variable {α β ε ε' : Type} {x : Except ε α} {a : α} {e : ε}

theorem mapError_eq_ok_iff {f : ε → ε'} : x.mapError f = .ok a ↔ x = .ok a := by
  cases x with
  | error e => simp [Except.mapError]
  | ok b => simp [Except.mapError]

theorem mapError_eq_error_iff {f : ε → ε'} {e' : ε'} :
    x.mapError f = .error e' ↔ ∃ e, x = .error e ∧ f e = e' := by
  cases x with
  | error e => simp [Except.mapError]
  | ok b => simp [Except.mapError]

theorem map_eq_ok_iff {f : α → β} {b : β} : x.map f = .ok b ↔ ∃ a, x = .ok a ∧ f a = b := by
  cases x with
  | error e => simp [Except.map]
  | ok a => simp [Except.map]

theorem map_eq_error_iff {f : α → β} : x.map f = .error e ↔ x = .error e := by
  cases x with
  | error e => simp [Except.map]
  | ok a => simp [Except.map]

theorem exists_ok_map_iff {f : α → β} : (∃ b, x.map f = .ok b) ↔ ∃ a, x = .ok a := by
  simp [map_eq_ok_iff]

theorem map_cons_eq_ok {as : List α} {reading : Except ε (List α)} :
    reading.map (a :: ·) = .ok (a :: as) ↔ reading = .ok as := by
  simp [map_eq_ok_iff]

theorem eq_ok_of_toOption (h : x.toOption = some a) : x = .ok a := by
  cases x with
  | error e => cases h
  | ok b => rw [Option.some.inj h]

/-- The error of a result, if it is one. -/
def failure? : Except ε α → Option ε
  | .error e => some e
  | .ok _ => none

theorem eq_error_of_failure? (h : failure? x = some e) : x = .error e := by
  cases x with
  | error e => rw [Option.some.inj h]
  | ok b => cases h

/-! ## Lists of results -/

variable {f : α → Except ε β}

theorem mapM_cons_eq_ok {as : List α} {bs : List β} :
    (a :: as).mapM f = .ok bs ↔
      ∃ b behind, f a = .ok b ∧ as.mapM f = .ok behind ∧ bs = b :: behind := by
  rw [List.mapM_cons]
  cases f a with
  | error e => simp [bind, Except.bind]
  | ok b =>
    cases as.mapM f with
    | error e => simp [bind, Except.bind]
    | ok behind =>
      simp only [bind, Except.bind, pure, Except.pure, Except.ok.injEq]
      constructor
      · rintro rfl
        exact ⟨b, behind, rfl, rfl, rfl⟩
      · rintro ⟨_, _, rfl, rfl, rfl⟩
        rfl

theorem mapM_cons_eq_error {as : List α} :
    (a :: as).mapM f = .error e ↔ f a = .error e ∨ ∃ b, f a = .ok b ∧ as.mapM f = .error e := by
  rw [List.mapM_cons]
  cases f a with
  | error e => simp [bind, Except.bind]
  | ok b => cases as.mapM f <;> simp [bind, Except.bind, pure, Except.pure]

theorem mapM_eq_ok {items : List α} {results : List β}
    (h : List.Forall₂ (fun item result => f item = .ok result) items results) :
    items.mapM f = .ok results := by
  induction h with
  | nil => rfl
  | cons hfirst hrest ih =>
    rw [List.mapM_cons, hfirst, ih]
    rfl

/-- The answers of a list are those for its items, in order. -/
theorem mapM_eq_ok_iff {items : List α} {results : List β} :
    items.mapM f = .ok results ↔
      List.Forall₂ (fun item result => f item = .ok result) items results := by
  refine ⟨fun h => ?_, mapM_eq_ok⟩
  induction items generalizing results with
  | nil =>
    cases h
    exact .nil
  | cons item items ih =>
    obtain ⟨first, behind, hfirst, hbehind, rfl⟩ := mapM_cons_eq_ok.mp h
    exact .cons hfirst (ih hbehind)

/-- A list has no answers because one of its items has none, and those in front of it have some. -/
theorem mapM_eq_error_iff_exists {items : List α} :
    items.mapM f = .error e ↔ ∃ front item behind results, items = front ++ item :: behind ∧
      List.Forall₂ (fun item result => f item = .ok result) front results ∧ f item = .error e := by
  induction items with
  | nil => simp [pure, Except.pure]
  | cons first items ih =>
    rw [mapM_cons_eq_error, ih]
    constructor
    · rintro (h | ⟨result, hfirst, front, item, behind, results, rfl, hfront, h⟩)
      · exact ⟨[], first, items, [], rfl, .nil, h⟩
      · exact ⟨first :: front, item, behind, result :: results, rfl, .cons hfirst hfront, h⟩
    · rintro ⟨front, item, behind, results, heq, hfront, h⟩
      cases hfront with
      | nil =>
        obtain ⟨rfl, rfl⟩ := List.cons.inj heq
        exact .inl h
      | @cons _ result _ results hfirst hfront =>
        obtain ⟨rfl, rfl⟩ := List.cons.inj heq
        exact .inr ⟨result, hfirst, _, item, behind, results, rfl, hfront, h⟩

/-- Each answer of the list is one for an item. -/
theorem exists_of_mem_of_mapM {as : List α} {bs : List β} (h : as.mapM f = .ok bs) {b : β}
    (hb : b ∈ bs) : ∃ a ∈ as, f a = .ok b := by
  induction as generalizing bs with
  | nil =>
    cases h
    cases hb
  | cons a as ih =>
    obtain ⟨first, behind, hfirst, hbehind, rfl⟩ := mapM_cons_eq_ok.mp h
    rcases List.mem_cons.mp hb with rfl | hb
    · exact ⟨a, List.mem_cons_self, hfirst⟩
    · obtain ⟨a', ha', hanswer⟩ := ih hbehind hb
      exact ⟨a', List.mem_cons_of_mem _ ha', hanswer⟩

/-- The first failure ends the walk over a list. -/
theorem mapM_eq_error_iff {refusal? : α → Option ε}
    (h : ∀ a e, f a = .error e ↔ refusal? a = some e) (as : List α) (e : ε) :
    as.mapM f = .error e ↔ as.findSome? refusal? = some e := by
  induction as with
  | nil => simp [pure, Except.pure]
  | cons a as ih =>
    rw [mapM_cons_eq_error, List.findSome?_cons, h, ih]
    cases hrefusal : refusal? a with
    | some e' => simp [(h a e').mpr hrefusal]
    | none =>
      cases hfirst : f a with
      | error e' =>
        rw [(h a e').mp hfirst] at hrefusal
        cases hrefusal
      | ok b => simp

/-- A question that has an answer for each item has one for the list, in the order of the items. -/
theorem exists_mapM_eq_ok {γ : Type} {g : β → γ} {k : α → γ} {P : β → Prop} {items : List α}
    (h : ∀ item ∈ items, ∃ result, f item = .ok result ∧ g result = k item ∧ P result) :
    ∃ results, items.mapM f = .ok results ∧ results.map g = items.map k ∧
      ∀ result ∈ results, P result := by
  induction items with
  | nil => exact ⟨[], rfl, rfl, by simp⟩
  | cons item items ih =>
    obtain ⟨⟨result, hresult, hkey, hresult'⟩, hitems⟩ := List.forall_mem_cons.mp h
    obtain ⟨results, hresults, hkeys, hall⟩ := ih hitems
    refine ⟨result :: results, ?_, ?_, List.forall_mem_cons.mpr ⟨hresult', hall⟩⟩
    · rw [List.mapM_cons, hresult, hresults]
      rfl
    · rw [List.map_cons, List.map_cons, hkey, hkeys]

end FlatCode
