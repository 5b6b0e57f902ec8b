import FlatCode.Number.Binary64
import FlatCode.Text.CodePoint

/-!
# JSON values

The arguments of instructions and the documents of programs. Integers and doubles are different
values (`1` and `1.0`), an object keeps the order of its fields, and its keys are distinct: readers
build objects with `mergeFields`, which keeps the first place and the last value of a repeated key.

`weight` measures a value against text: a value is at most as heavy as the text it is read from is
long. It is the measure of every recursion that follows texts inside values.
-/

namespace FlatCode

open Number

/-- A JSON value. -/
inductive Json where
  | null
  | bool (value : Bool)
  | int (value : Int)
  | float (value : Binary64)
  | string (value : Text)
  | array (items : List Json)
  | object (fields : List (Text × Json))

namespace Json

/-! ## Fields of objects -/

/-- The value of a key. -/
def field? (key : Text) : List (Text × Json) → Option Json
  | [] => none
  | (k, v) :: rest => if k = key then some v else field? key rest

/-- A field set to a value: in its place if the key is there, else at the end. -/
def setField (key : Text) (value : Json) : List (Text × Json) → List (Text × Json)
  | [] => [(key, value)]
  | (k, v) :: rest => if k = key then (key, value) :: rest else (k, v) :: setField key value rest

/-- Fields in the order of the first places of their keys, each with its last value. -/
def mergeFields (fields : List (Text × Json)) : List (Text × Json) :=
  fields.foldl (fun merged field => setField field.1 field.2 merged) []

/-- Whether a value counts as true: all but null, false, the zeros and what is empty. -/
def truthy : Json → Bool
  | .null => false
  | .bool b => b
  | .int n => n != 0
  | .float (.finite _ units _) => units != 0
  | .float _ => true
  | .string s => !s.isEmpty
  | .array items => !items.isEmpty
  | .object fields => !fields.isEmpty

/-! ## Weight -/

mutual

/-- The length of the shortest text that a value can be read from is at least its weight. -/
def weight : Json → Nat
  | .null => 1
  | .bool _ => 1
  | .int _ => 1
  | .float _ => 1
  | .string s => s.length + 1
  | .array items => 1 + itemsWeight items
  | .object fields => 1 + fieldsWeight fields

/-- The weight of the items of an array. -/
def itemsWeight : List Json → Nat
  | [] => 0
  | item :: rest => weight item + itemsWeight rest

/-- The weight of the values of an object. -/
def fieldsWeight : List (Text × Json) → Nat
  | [] => 0
  | (_, value) :: rest => weight value + fieldsWeight rest

end

theorem one_le_weight (value : Json) : 1 ≤ weight value := by
  cases value <;> simp [weight]

theorem weight_le_of_mem {items : List Json} {item : Json} (h : item ∈ items) :
    weight item ≤ itemsWeight items := by
  induction items with
  | nil => simp at h
  | cons head rest ih =>
    rw [itemsWeight]
    rcases List.mem_cons.mp h with rfl | h
    · omega
    · have := ih h
      omega

theorem weight_le_of_field? {key : Text} {fields : List (Text × Json)} {value : Json}
    (h : field? key fields = some value) : weight value ≤ fieldsWeight fields := by
  induction fields with
  | nil => simp [field?] at h
  | cons head rest ih =>
    obtain ⟨k, v⟩ := head
    rw [field?] at h
    rw [fieldsWeight]
    split at h
    · obtain rfl := Option.some.inj h
      omega
    · have := ih h
      omega

theorem fieldsWeight_setField (key : Text) (value : Json) (fields : List (Text × Json)) :
    fieldsWeight (setField key value fields) ≤ fieldsWeight fields + weight value := by
  induction fields with
  | nil => simp [setField, fieldsWeight]
  | cons head rest ih =>
    obtain ⟨k, v⟩ := head
    rw [setField]
    split
    · simp only [fieldsWeight]
      omega
    · simp only [fieldsWeight]
      omega

theorem fieldsWeight_foldl_setField (fields merged : List (Text × Json)) :
    fieldsWeight (fields.foldl (fun m field => setField field.1 field.2 m) merged)
      ≤ fieldsWeight merged + fieldsWeight fields := by
  induction fields generalizing merged with
  | nil => simp [fieldsWeight]
  | cons head rest ih =>
    obtain ⟨k, v⟩ := head
    have h := ih (setField k v merged)
    have h' := fieldsWeight_setField k v merged
    simp only [List.foldl_cons, fieldsWeight]
    omega

/-- Merging repeated keys makes no object heavier. -/
theorem fieldsWeight_mergeFields (fields : List (Text × Json)) :
    fieldsWeight (mergeFields fields) ≤ fieldsWeight fields := by
  simpa [mergeFields, fieldsWeight] using fieldsWeight_foldl_setField fields []

end Json

end FlatCode
