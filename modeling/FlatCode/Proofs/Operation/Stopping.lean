import FlatCode.Proofs.Operation.Registration

/-!
# Where registering stops

What is declared is read as a whole, and then the operations are added one by one. So registering
fails in two ways (`Registry.Stops`): what is declared makes no sense, and nothing is added, or a
name is taken, and the operations in front of it stay. Neither way brings back what going back to
the built-in operations has dropped.

* `Registry.add_eq_ok_iff`, `Registry.add_eq_error_iff` — operations are added up to the first whose
  name is taken
* `Registry.register_eq_error_iff` — the two ways in which registering fails
* `register_failed` — what a failure leaves behind, and how to go on from there
-/

namespace FlatCode

namespace Registry

/-- The registry with more operations at its end. -/
def append (registry : Registry) (ops : List Operation) : Registry := ⟨registry.entries ++ ops⟩

/-- Whether operations can be added one after the other: no name of them is taken, and none comes
twice. -/
structure Admits (registry : Registry) (ops : List Operation) : Prop where
  free : ∀ op ∈ ops, registry.find? op.name = none
  distinct : (ops.map Operation.name).Nodup

instance (registry : Registry) (ops : List Operation) : Decidable (registry.Admits ops) :=
  decidable_of_iff (_ ∧ _) ⟨fun h => ⟨h.1, h.2⟩, fun h => ⟨h.1, h.2⟩⟩

variable {registry after : Registry} {op : Operation} {ops front : List Operation}
  {e : DeclarationError}

@[simp] theorem append_nil (registry : Registry) : registry.append [] = registry := by
  simp [append]

theorem append_push (registry : Registry) (op : Operation) (ops : List Operation) :
    (registry.push op).append ops = registry.append (op :: ops) := by
  simp [append, push]

theorem append_eq_self_iff : registry.append ops = registry ↔ ops = [] := by
  cases registry
  simp [append]

/-! ## Adding one by one -/

theorem admits_nil (registry : Registry) : registry.Admits [] := ⟨by simp, by simp⟩

/-- A name is free behind an operation that is added if it was free and is another one. -/
theorem find?_push_eq_none_iff {name : Text} :
    (registry.push op).find? name = none ↔ registry.find? name = none ∧ op.name ≠ name := by
  simp [find?, push]

/-- The first operation is added, then those behind it. -/
theorem admits_cons_iff :
    registry.Admits (op :: ops) ↔
      registry.find? op.name = none ∧ (registry.push op).Admits ops := by
  constructor
  · rintro ⟨hfree, hdistinct⟩
    obtain ⟨hop, hops⟩ := List.forall_mem_cons.mp hfree
    rw [List.map_cons, List.nodup_cons] at hdistinct
    refine ⟨hop, fun o ho => find?_push_eq_none_iff.mpr ⟨hops o ho, ?_⟩, hdistinct.2⟩
    exact fun hname => hdistinct.1 (hname ▸ List.mem_map_of_mem ho)
  · rintro ⟨hop, hfree, hdistinct⟩
    have hops := fun o ho => (find?_push_eq_none_iff.mp (hfree o ho)).1
    refine ⟨List.forall_mem_cons.mpr ⟨hop, hops⟩, ?_⟩
    rw [List.map_cons, List.nodup_cons]
    refine ⟨fun hmem => ?_, hdistinct⟩
    obtain ⟨o, ho, hname⟩ := List.mem_map.mp hmem
    exact (find?_push_eq_none_iff.mp (hfree o ho)).2 hname.symm

theorem add_cons_of_free (h : registry.find? op.name = none) (ops : List Operation) :
    registry.add (op :: ops) = (registry.push op).add ops := by
  rw [add, h]

theorem add_cons_of_taken (h : registry.find? op.name ≠ none) (ops : List Operation) :
    registry.add (op :: ops) = (.error (.duplicate op.name), registry) := by
  rw [add]
  split
  · rfl
  · next hnone => exact absurd hnone h

/-- **Operations in front that can be added are added**, whatever comes of those behind them. -/
theorem add_append (h : registry.Admits front) (ops : List Operation) :
    registry.add (front ++ ops) = (registry.append front).add ops := by
  induction front generalizing registry with
  | nil => rw [List.nil_append, append_nil]
  | cons op front ih =>
    obtain ⟨hop, hfront⟩ := admits_cons_iff.mp h
    rw [List.cons_append, add_cons_of_free hop, ih hfront, append_push]

/-- Adding succeeds or stops at the first operation whose name is taken. -/
theorem add_cases (registry : Registry) (ops : List Operation) :
    (registry.Admits ops ∧ registry.add ops = (.ok (), registry.append ops)) ∨
    ∃ front op behind, ops = front ++ op :: behind ∧ registry.Admits front ∧
      ¬registry.Admits (front ++ [op]) ∧
      registry.add ops = (.error (.duplicate op.name), registry.append front) := by
  induction ops generalizing registry with
  | nil => exact .inl ⟨admits_nil registry, by rw [add, append_nil]⟩
  | cons op ops ih =>
    by_cases hop : registry.find? op.name = none
    · rw [add_cons_of_free hop]
      rcases ih (registry.push op) with ⟨hops, hadd⟩ | ⟨front, o, behind, rfl, hfront, hnot, hadd⟩
      · exact .inl ⟨admits_cons_iff.mpr ⟨hop, hops⟩, by rw [hadd, append_push]⟩
      · refine .inr
          ⟨op :: front, o, behind, rfl, admits_cons_iff.mpr ⟨hop, hfront⟩, fun h => ?_, ?_⟩
        · exact hnot (admits_cons_iff.mp h).2
        · rw [hadd, append_push]
    · refine .inr ⟨[], op, ops, rfl, admits_nil registry, fun h => ?_, ?_⟩
      · exact hop (h.free op List.mem_cons_self)
      · rw [add_cons_of_taken hop, append_nil]

theorem add_eq_ok_iff :
    registry.add ops = (.ok (), after) ↔ registry.Admits ops ∧ after = registry.append ops := by
  constructor
  · intro h
    rcases registry.add_cases ops with ⟨hops, hadd⟩ | ⟨front, op, behind, -, -, -, hadd⟩
    · rw [hadd] at h
      cases h
      exact ⟨hops, rfl⟩
    · rw [hadd] at h
      cases h
  · rintro ⟨hops, rfl⟩
    have hadd := add_append hops []
    rwa [List.append_nil] at hadd

/-- **Adding stops at the first operation whose name is taken**, by an operation that was there or
by one in front of it, and those in front of it stay. -/
theorem add_eq_error_iff :
    registry.add ops = (.error e, after) ↔
      ∃ front op behind, ops = front ++ op :: behind ∧ registry.Admits front ∧
        ¬registry.Admits (front ++ [op]) ∧ e = .duplicate op.name ∧
        after = registry.append front := by
  constructor
  · intro h
    rcases registry.add_cases ops with ⟨-, hadd⟩ | ⟨front, op, behind, hops, hfront, hnot, hadd⟩
    · rw [hadd] at h
      cases h
    · rw [hadd] at h
      cases h
      exact ⟨front, op, behind, hops, hfront, hnot, rfl, rfl⟩
  · rintro ⟨front, op, behind, rfl, hfront, hnot, rfl, rfl⟩
    rw [add_append hfront]
    refine add_cons_of_taken (fun hop => hnot ?_) behind
    have hadd := add_append hfront [op]
    rw [add_cons_of_free hop] at hadd
    exact (add_eq_ok_iff.mp (hadd.trans (by rw [add]))).1

/-! ## Registering -/

/-- The registry that operations are added to: the built-in one after a reset. -/
def resetIf (registry : Registry) (reset : Bool) : Registry := if reset then builtin else registry

/-- How registering fails, and what it leaves of the registry that operations are added to. -/
inductive Stops (base : Registry) (declaration : Declaration) :
    DeclarationError → Registry → Prop where
  /-- No operations are declared, and none is added. -/
  | undeclared {e : DeclarationError} (h : declaration.operations = .error e) :
      Stops base declaration e base
  /-- A name is taken, and the operations in front of it stay. -/
  | duplicate {front behind : List Operation} {op : Operation}
      (h : declaration.operations = .ok (front ++ op :: behind)) (hfront : base.Admits front)
      (hop : ¬base.Admits (front ++ [op])) :
      Stops base declaration (.duplicate op.name) (base.append front)

/-- **Registering fails in these two ways and in no other.** -/
theorem register_eq_error_iff {declaration : Declaration} {reset : Bool} :
    registry.register declaration reset = (.error e, after) ↔
      Stops (registry.resetIf reset) declaration e after := by
  unfold register
  rw [resetIf]
  dsimp only
  constructor
  · intro h
    split at h
    · next hops =>
      cases h
      exact .undeclared hops
    · next ops hops =>
      obtain ⟨front, op, behind, rfl, hfront, hop, rfl, rfl⟩ := add_eq_error_iff.mp h
      exact .duplicate hops hfront hop
  · intro h
    cases h with
    | undeclared hops => rw [hops]
    | duplicate hops hfront hop =>
      rw [hops]
      exact add_eq_error_iff.mpr ⟨_, _, _, rfl, hfront, hop, rfl, rfl⟩

/-- What is left is the registry that operations are added to, with those that stayed behind it. -/
theorem Stops.exists_front {base : Registry} {declaration : Declaration}
    (h : Stops base declaration e after) :
    ∃ front, base.Admits front ∧ after = base.append front ∧
      (front = [] ↔ ∀ op rest, declaration.operations = .ok (op :: rest) →
        base.find? op.name ≠ none) := by
  cases h with
  | undeclared hops =>
    refine ⟨[], admits_nil _, (append_nil _).symm, fun _ op rest hok => ?_, fun _ => rfl⟩
    rw [hops] at hok
    cases hok
  | @duplicate front behind op hops hfront hop =>
    refine ⟨front, hfront, rfl, ?_, fun hfirst => ?_⟩
    · rintro rfl o rest hok hfree
      rw [hops] at hok
      cases hok
      exact hop (admits_cons_iff.mpr ⟨hfree, admits_nil _⟩)
    · cases front with
      | nil => rfl
      | cons first front =>
        exact absurd (admits_cons_iff.mp hfront).1 (hfirst first (front ++ op :: behind) hops)

/-- Operations that stayed are not added again. -/
theorem add_append_again (hops : front = op :: ops) (behind : List Operation) :
    (registry.append front).add (front ++ behind)
      = (.error (.duplicate op.name), registry.append front) := by
  rw [hops, List.cons_append]
  refine add_cons_of_taken (fun hnone => ?_) _
  exact not_mem_of_find?_eq_none hnone (List.mem_map_of_mem (by simp [append]))

end Registry

/-- **What a failure to register leaves behind**: the registry that operations are added to, which
is the one before the call or after a reset the built-in one, and the operations in front of the
first whose name is taken. So nothing is added exactly if no operations are declared or already the
name of the first one is taken. To go on, the operations that stayed are left out: the others then
give the registry that all would have given at first, and with them all are refused as duplicates. -/
theorem register_failed {registry after : Registry} {declaration : Declaration} {reset : Bool}
    {e : DeclarationError} (h : registry.register declaration reset = (.error e, after)) :
    let base := registry.resetIf reset
    Registry.Stops base declaration e after ∧
    (after = base ↔ ∀ op rest, declaration.operations = .ok (op :: rest) →
      base.find? op.name ≠ none) ∧
    ∃ front, base.Admits front ∧ after = base.append front ∧
      ∀ corrected rest, corrected.operations = .ok (front ++ rest) →
        (∀ remaining, remaining.operations = .ok rest →
          after.register remaining false = base.register corrected false) ∧
        ∀ op ∈ front.head?,
          after.register corrected false = (.error (.duplicate op.name), after) := by
  intro base
  have hstops := Registry.register_eq_error_iff.mp h
  obtain ⟨front, hfront, rfl, hempty⟩ := hstops.exists_front
  refine ⟨hstops, Registry.append_eq_self_iff.trans hempty, front, hfront, rfl, ?_⟩
  intro corrected rest hcorrected
  unfold Registry.register
  refine ⟨fun remaining hremaining => ?_, fun op hop => ?_⟩
  · rw [hremaining, hcorrected]
    exact (Registry.add_append hfront rest).symm
  · obtain ⟨ops, hops⟩ := List.head?_eq_some_iff.mp hop
    rw [hcorrected]
    exact Registry.add_append_again hops rest

/-- A list of two declarations, of which the second one has a name that may be taken. -/
def hopAndStep : Declaration :=
  .value (.array [.object [("name", .string "Hop"), ("simple", .bool true)],
    .object [("name", .string "Step"), ("simple", .bool true)]])

theorem operations_hopAndStep :
    hopAndStep.operations = .ok [.ofSimple "Hop", .ofSimple "Step"] := by
  have hhop : operationsOfJson (.object [("name", .string "Hop"), ("simple", .bool true)])
      = .ok [.ofSimple "Hop"] := by
    rw [operationsOfJson]
    rfl
  have hstep : operationsOfJson (.object [("name", .string "Step"), ("simple", .bool true)])
      = .ok [.ofSimple "Step"] := by
    rw [operationsOfJson]
    rfl
  simp [hopAndStep, Declaration.operations, operationsOfJson, operationsOfItems, hhop, hstep]

theorem register_hopAndStep : (Registry.builtin.push (.ofSimple "Step")).register hopAndStep false
    = (.error (.duplicate "Step"),
        (Registry.builtin.push (.ofSimple "Step")).push (.ofSimple "Hop")) := by
  unfold Registry.register
  rw [operations_hopAndStep]
  rfl

theorem register_failed_hopAndStep :
    let registry := Registry.builtin.push (.ofSimple "Step")
    Registry.Stops registry hopAndStep (.duplicate "Step") (registry.push (.ofSimple "Hop")) ∧
    registry.push (.ofSimple "Hop") ≠ registry :=
  ⟨(register_failed register_hopAndStep).1, by decide +kernel⟩

/-- **Not every failure is undone**: the first of two operations stays where the second one is
refused, and is refused itself when it is tried again; and a reset stays where nothing is
declared. -/
theorem register_not_undone :
    let registry := Registry.builtin.push (.ofSimple "Step")
    (∃ e after, registry.register hopAndStep false = (.error e, after) ∧ after ≠ registry ∧
      after.register (.operation (.ofSimple "Hop")) false = (.error (.duplicate "Hop"), after)) ∧
    ∃ e after,
      registry.register (.value (.int 42)) true = (.error e, after) ∧ after ≠ registry := by
  intro registry
  refine ⟨⟨_, _, register_hopAndStep, by decide +kernel, rfl⟩,
    .unsupported .int, .builtin, ?_, by decide +kernel⟩
  unfold Registry.register
  rw [Declaration.operations, operationsOfJson]
  rfl

end FlatCode
