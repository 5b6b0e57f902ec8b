import FlatCode.Proofs.Json.Decidable
import FlatCode.Proofs.Results

/-!
# Declarations are flattened

One look at a declaration tells whether it declares something by itself or stands for other
declarations (`Declaration.shape`): the items of a list, the value that a text decodes to, the list
of an object. What it stands for is lighter than it is, all parts together, although it may be
nested deeper. So the looks come to an end, and what is declared is what the leaves declare, from
left to right; the first leaf that is refused decides the error.

* `Declaration.totalWeight_lt` — the parts of a declaration are lighter than it is
* `Declaration.exists_leaves`, `Declaration.Leaves.looks_le` — the leaves are found, in no more
  looks than the declaration is heavy
* `Declaration.Leaves.inTurn` — what is declared is what the leaves declare, one after the other
* `Declaration.flattened` — declarations are flattened, and that comes to an end
-/

namespace FlatCode

open Text

/-! ## Results one after the other -/

/-- Whether a result is that of some results one after the other: all their operations in order, or
the error of the first that is one. -/
def InTurn (results : List (Except DeclarationError (List Operation))) :
    Except DeclarationError (List Operation) → Prop
  | .ok ops => ∃ parts : List (List Operation), results = parts.map .ok ∧ ops = parts.flatten
  | .error e => ∃ (front : List (List Operation)) (behind : List _),
      results = front.map .ok ++ .error e :: behind

section

variable {results front behind : List (Except DeclarationError (List Operation))}
  {result first second : Except DeclarationError (List Operation)}

theorem inTurn_nil : InTurn [] (.ok []) := ⟨[], rfl, rfl⟩

theorem inTurn_singleton (result : Except DeclarationError (List Operation)) :
    InTurn [result] result := by
  cases result with
  | error e => exact ⟨[], [], rfl⟩
  | ok ops => exact ⟨[ops], rfl, by simp⟩

/-- Behind operations come those of the next results, or their error. -/
theorem inTurn_append (hfront : InTurn front first) (hbehind : InTurn behind second) :
    InTurn (front ++ behind) (do
      let ops ← first
      let more ← second
      return ops ++ more) := by
  cases first with
  | error e =>
    obtain ⟨oks, rest, rfl⟩ := hfront
    exact ⟨oks, rest ++ behind, by simp⟩
  | ok ops =>
    obtain ⟨parts, rfl, rfl⟩ := hfront
    cases second with
    | error e =>
      obtain ⟨oks, rest, rfl⟩ := hbehind
      exact ⟨parts ++ oks, rest, by simp⟩
    | ok more =>
      obtain ⟨others, rfl, rfl⟩ := hbehind
      exact ⟨parts ++ others, by simp, by simp⟩

end

/-! ## The shape of a declaration -/

/-- What one look at a declaration tells. -/
inductive Shape where
  /-- What it declares by itself, or why it is refused. -/
  | leaf (result : Except DeclarationError (List Operation))
  /-- The declarations it stands for, in order. -/
  | node (parts : List Declaration)

/-- What is declared by what one look tells. -/
def Shape.operations : Shape → Except DeclarationError (List Operation)
  | .leaf result => result
  | .node parts => Declaration.allOperations parts

/-- What one look at a value tells. -/
def Json.shape : Json → Shape
  | .null => .leaf (.ok [])
  | .bool _ => .leaf (.error (.unsupported .bool))
  | .int _ => .leaf (.error (.unsupported .int))
  | .float _ => .leaf (.error (.unsupported .float))
  | .string s =>
    if startsJson (trim s) then
      match Json.read (trim s) with
      | .error e => .leaf (.error (.malformedText e))
      | .ok decoded => .node [.value decoded]
    else .leaf (Operation.ofSchema (trim s))
  | .array items => .node (items.map .value)
  | .object fields =>
    match Json.field? "operations" fields with
    | some (.array items) => .node [.value (.array items)]
    | _ => .leaf ((Operation.ofFields fields).map fun op => [op])

namespace Declaration

/-- What one look at a declaration tells. -/
def shape : Declaration → Shape
  | .operation op => .leaf (.ok [op])
  | .value json => json.shape
  | .list items => .node items

theorem shape_string_of_error {s : Text} {e : Json.TextError}
    (hjson : startsJson (trim s) = true) (h : Json.read (trim s) = .error e) :
    (value (.string s)).shape = .leaf (.error (.malformedText e)) := by
  rw [shape, Json.shape, if_pos hjson, h]

theorem shape_string_of_ok {s : Text} {decoded : Json}
    (hjson : startsJson (trim s) = true) (h : Json.read (trim s) = .ok decoded) :
    (value (.string s)).shape = .node [.value decoded] := by
  rw [shape, Json.shape, if_pos hjson, h]

theorem shape_string_of_schema {s : Text} {ops : List Operation}
    (hjson : startsJson (trim s) = false)
    (h : Operation.ofSchema (trim s) = .ok ops) :
    (value (.string s)).shape = .leaf (.ok ops) := by
  rw [shape, Json.shape, hjson, h]
  rfl

/-- Whether a declaration is one of those that another one stands for. -/
def Inside (inner outer : Declaration) : Prop :=
  ∃ parts, outer.shape = .node parts ∧ inner ∈ parts

/-- The results of the leaves of declarations from left to right, and at how many declarations one
has to look for them. -/
inductive Leaves :
    List Declaration → List (Except DeclarationError (List Operation)) → Nat → Prop
  | nil : Leaves [] [] 0
  | leaf {declaration rest result results looks} (hshape : declaration.shape = .leaf result)
      (hrest : Leaves rest results looks) :
      Leaves (declaration :: rest) (result :: results) (looks + 1)
  | node {declaration rest parts front behind inner looks}
      (hshape : declaration.shape = .node parts) (hparts : Leaves parts front inner)
      (hrest : Leaves rest behind looks) :
      Leaves (declaration :: rest) (front ++ behind) (inner + 1 + looks)

/-! ## Weight -/

mutual

/-- Lists are one heavier than their items, values as heavy as they are. -/
def weight : Declaration → Nat
  | .operation _ => 1
  | .value json => json.weight
  | .list items => 1 + totalWeight items

/-- The weight of some declarations together. -/
def totalWeight : List Declaration → Nat
  | [] => 0
  | item :: rest => weight item + totalWeight rest

end

theorem one_le_weight (declaration : Declaration) : 1 ≤ declaration.weight := by
  cases declaration with
  | operation op => exact Nat.le_refl 1
  | value json => exact json.one_le_weight
  | list items =>
    rw [weight]
    omega

theorem totalWeight_map_value (items : List Json) :
    totalWeight (items.map .value) = Json.itemsWeight items := by
  induction items with
  | nil => rfl
  | cons item items ih => rw [List.map_cons, totalWeight, weight, ih, Json.itemsWeight]

theorem totalWeight_value (json : Json) : totalWeight [.value json] = json.weight := by
  simp [totalWeight, weight]

theorem weight_le_of_mem {declaration : Declaration} {items : List Declaration}
    (h : declaration ∈ items) : declaration.weight ≤ totalWeight items := by
  induction items with
  | nil => cases h
  | cons item items ih =>
    rw [totalWeight]
    rcases List.mem_cons.mp h with rfl | h
    · omega
    · have := ih h
      omega

/-- A decoded text weighs at most as much as the text is long, and the string one more; that is why
the shape of a text is lighter than the text. -/
theorem totalWeight_lt_of_json {json : Json} {parts : List Declaration}
    (h : json.shape = .node parts) : totalWeight parts < json.weight := by
  cases json with
  | null | bool b | int n | float x => cases h
  | string s =>
    rw [Json.shape] at h
    split at h
    · split at h
      · cases h
      · next decoded hread =>
        cases h
        have hweight := Json.weight_read hread
        have htrim := length_trim_le s
        rw [totalWeight_value, Json.weight]
        omega
    · cases h
  | array items =>
    cases h
    rw [totalWeight_map_value, Json.weight]
    omega
  | object fields =>
    rw [Json.shape] at h
    split at h
    · next items hfield =>
      cases h
      have hweight := Json.weight_le_of_field? hfield
      change totalWeight [.value (.array items)] < 1 + Json.fieldsWeight fields
      rw [totalWeight_value]
      omega
    · cases h

/-- The parts of a declaration are lighter than it is. -/
theorem totalWeight_lt {declaration : Declaration} {parts : List Declaration}
    (h : declaration.shape = .node parts) : totalWeight parts < declaration.weight := by
  cases declaration with
  | operation op => cases h
  | value json => exact totalWeight_lt_of_json h
  | list items =>
    cases h
    rw [weight]
    omega

/-- Going from a declaration to what it stands for comes to an end. -/
theorem wellFounded_inside : WellFounded Inside :=
  Subrelation.wf
    (fun ⟨_, hshape, hmem⟩ => Nat.lt_of_le_of_lt (weight_le_of_mem hmem) (totalWeight_lt hshape))
    (measure weight).wf

/-! ## Leaves -/

/-- The leaves of declarations are found. -/
theorem exists_leaves : ∀ items : List Declaration, ∃ results looks, Leaves items results looks
  | [] => ⟨[], 0, .nil⟩
  | declaration :: rest => by
    obtain ⟨behind, looks, hrest⟩ := exists_leaves rest
    cases hshape : declaration.shape with
    | leaf result => exact ⟨_, _, .leaf hshape hrest⟩
    | node parts =>
      obtain ⟨front, inner, hparts⟩ := exists_leaves parts
      exact ⟨_, _, .node hshape hparts hrest⟩
termination_by items => totalWeight items
decreasing_by
  · have := one_le_weight declaration
    rw [totalWeight]
    omega
  · have := totalWeight_lt hshape
    rw [totalWeight]
    omega

variable {items : List Declaration} {results : List (Except DeclarationError (List Operation))}
  {looks : Nat}

/-- No more looks are needed than the declarations are heavy. -/
theorem Leaves.looks_le (h : Leaves items results looks) : looks ≤ totalWeight items := by
  induction h with
  | nil => exact Nat.zero_le _
  | @leaf declaration rest result results looks hshape hrest ih =>
    have := one_le_weight declaration
    rw [totalWeight]
    omega
  | node hshape hparts hrest ihparts ihrest =>
    have := totalWeight_lt hshape
    rw [totalWeight]
    omega

/-! ## Flattening -/

theorem allOperations_cons (declaration : Declaration) (rest : List Declaration) :
    allOperations (declaration :: rest) = (do
      let ops ← declaration.operations
      let more ← allOperations rest
      return ops ++ more) := by
  rw [allOperations]
  cases declaration.operations with
  | error e => rfl
  | ok ops => cases allOperations rest <;> rfl

theorem allOperations_singleton (declaration : Declaration) :
    allOperations [declaration] = declaration.operations := by
  rw [allOperations_cons, allOperations]
  cases declaration.operations with
  | error e => rfl
  | ok ops =>
    change Except.ok (ops ++ []) = _
    rw [List.append_nil]

theorem allOperations_map_value (items : List Json) :
    allOperations (items.map .value) = operationsOfItems items := by
  induction items with
  | nil =>
    rw [operationsOfItems]
    rfl
  | cons item items ih => rw [List.map_cons, allOperations, ih, operations, operationsOfItems]

theorem operationsOfJson_eq (json : Json) : operationsOfJson json = json.shape.operations := by
  cases json with
  | null | bool b | int n | float x =>
    rw [operationsOfJson]
    rfl
  | string s =>
    rw [operationsOfJson, Json.shape]
    split
    · split
      · next e hread => rw [hread, Shape.operations]
      · next decoded hread => rw [hread, Shape.operations, allOperations_singleton, operations]
    · rfl
  | array items => rw [operationsOfJson, Json.shape, Shape.operations, allOperations_map_value]
  | object fields =>
    rw [operationsOfJson, Json.shape]
    split
    · next items hfield =>
      rw [hfield, Shape.operations, allOperations_singleton, operations, operationsOfJson]
    · next hfield =>
      split
      · next items hfield' => exact absurd hfield' (hfield items)
      · rfl

/-- A declaration declares what one look tells: its own result, or that of its parts. -/
theorem operations_eq (declaration : Declaration) :
    declaration.operations = declaration.shape.operations := by
  cases declaration with
  | operation op => rfl
  | value json => exact operationsOfJson_eq json
  | list items => rfl

/-- Declarations declare what their leaves declare, one after the other. -/
theorem Leaves.inTurn (h : Leaves items results looks) :
    InTurn results (allOperations items) := by
  induction h with
  | nil => exact inTurn_nil
  | leaf hshape hrest ih =>
    rw [allOperations_cons, operations_eq, hshape]
    exact inTurn_append (inTurn_singleton _) ih
  | node hshape hparts hrest ihparts ihrest =>
    rw [allOperations_cons, operations_eq, hshape]
    exact inTurn_append ihparts ihrest

/-- Declarations declare what each of them declares, one after the other. -/
theorem inTurn_map_operations (items : List Declaration) :
    InTurn (items.map operations) (allOperations items) := by
  induction items with
  | nil => exact inTurn_nil
  | cons declaration rest ih =>
    rw [allOperations_cons]
    exact inTurn_append (inTurn_singleton _) ih

/-- **Declarations are flattened, and that comes to an end.** Nothing stands for other declarations
without end. The leaves of a declaration are found in no more looks than it is heavy, and it
declares what they declare from left to right, or is refused with the error of the first one that
is refused. In the same way a list declares what its items declare, whether it is a list of
declarations or a value; and a text that starts like a list or an object is no JSON text and is
refused, or declares the same as the value it decodes to. -/
theorem flattened :
    WellFounded Inside ∧
    (∀ declaration : Declaration,
      (∃ results looks, Leaves [declaration] results looks) ∧
      ∀ results looks, Leaves [declaration] results looks →
        looks ≤ declaration.weight ∧ InTurn results declaration.operations) ∧
    (∀ items, InTurn (items.map operations) (list items).operations) ∧
    (∀ items, (value (.array items)).operations = (list (items.map .value)).operations) ∧
    ∀ s : Text, startsJson (trim s) = true →
      (∀ e, Json.read (trim s) = .error e →
        (value (.string s)).operations = .error (.malformedText e)) ∧
      ∀ decoded, Json.read (trim s) = .ok decoded →
        (value (.string s)).operations = (value decoded).operations := by
  refine ⟨wellFounded_inside, fun declaration => ⟨exists_leaves _, fun results looks h => ?_⟩,
    inTurn_map_operations, fun items => ?_, fun s hjson => ⟨fun e hread => ?_,
    fun decoded hread => ?_⟩⟩
  · have hlooks := h.looks_le
    have hresults := h.inTurn
    rw [totalWeight, totalWeight, Nat.add_zero] at hlooks
    rw [allOperations_singleton] at hresults
    exact ⟨hlooks, hresults⟩
  · rw [operations_eq]
    rfl
  · rw [operations_eq, shape_string_of_error hjson hread, Shape.operations]
  · rw [operations_eq, shape_string_of_ok hjson hread, Shape.operations,
      allOperations_singleton]

/-- A text that holds another one, and an operation: the list of both is refused, for the inner text
declares a number. -/
theorem flattened_texts :
    let inner := "[\"Foo: begin\", 1]"
    let outer := "[\"[\\\"Foo: begin\\\", 1]\", null]"
    let declaration := list [value (.string outer), operation .nop]
    let results := [.ok [.ofBegin "Foo"], .error (.unsupported .int), .ok [], .ok [.nop]]
    Leaves [declaration] results 9 ∧ InTurn results declaration.operations ∧
      startsJson (trim inner) = true ∧
      Json.read (trim inner) = .ok (.array [.string "Foo: begin", .int 1]) ∧
      (value (.string inner)).operations =
        (value (.array [.string "Foo: begin", .int 1])).operations := by
  intro inner outer declaration results
  have hinner : Json.read (trim inner) = .ok (.array [.string "Foo: begin", .int 1]) :=
    eq_ok_of_toOption (by decide +kernel)
  have houter : Json.read (trim outer) = .ok (.array [.string inner, .null]) :=
    eq_ok_of_toOption (by decide +kernel)
  have hstarts : startsJson (trim inner) = true := by decide +kernel
  have hfoo : (value (.string "Foo: begin")).shape = .leaf (.ok [.ofBegin "Foo"]) :=
    shape_string_of_schema (by decide +kernel) (eq_ok_of_toOption (by decide +kernel))
  have hitems : Leaves [value (.string "Foo: begin"), value (.int 1)]
      [.ok [.ofBegin "Foo"], .error (.unsupported .int)] 2 := .leaf hfoo (.leaf rfl .nil)
  have harray : Leaves [value (.array [.string "Foo: begin", .int 1])]
      [.ok [.ofBegin "Foo"], .error (.unsupported .int)] 3 := .node rfl hitems .nil
  have hnull : Leaves [value .null] [.ok []] 1 := .leaf rfl .nil
  have htexts : Leaves [value (.array [.string inner, .null])] (results.take 3) 6 :=
    .node rfl (.node (shape_string_of_ok hstarts hinner) harray hnull) .nil
  have hnop : Leaves [operation .nop] [.ok [.nop]] 1 := .leaf rfl .nil
  have hleaves : Leaves [declaration] results 9 :=
    .node rfl (.node (shape_string_of_ok (by decide +kernel) houter) htexts hnop) .nil
  obtain ⟨-, hdeclarations, -, -, htext⟩ := flattened
  exact ⟨hleaves, ((hdeclarations declaration).2 results 9 hleaves).2, hstarts, hinner,
    (htext inner hstarts).2 _ hinner⟩

end Declaration

end FlatCode
