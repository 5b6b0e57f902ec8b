import FlatCode.Program.Basic

/-!
# Equality of values is decided

Whether two values are the same value, in contrast to `Json.same`, which compares numbers across
kinds and objects without order. With it programs are compared too, so what is read from a given
text can be decided.
-/

namespace FlatCode

namespace Json

mutual

/-- Decides whether two values are the same. -/
def decEq : (a b : Json) → Decidable (a = b)
  | .null, b => match b with
    | .null => isTrue rfl
    | .bool _ | .int _ | .float _ | .string _ | .array _ | .object _ => isFalse nofun
  | .bool a, b => match b with
    | .bool b => decidable_of_iff (a = b) ⟨congrArg _, Json.bool.inj⟩
    | .null | .int _ | .float _ | .string _ | .array _ | .object _ => isFalse nofun
  | .int a, b => match b with
    | .int b => decidable_of_iff (a = b) ⟨congrArg _, Json.int.inj⟩
    | .null | .bool _ | .float _ | .string _ | .array _ | .object _ => isFalse nofun
  | .float a, b => match b with
    | .float b => decidable_of_iff (a = b) ⟨congrArg _, Json.float.inj⟩
    | .null | .bool _ | .int _ | .string _ | .array _ | .object _ => isFalse nofun
  | .string a, b => match b with
    | .string b => decidable_of_iff (a = b) ⟨congrArg _, Json.string.inj⟩
    | .null | .bool _ | .int _ | .float _ | .array _ | .object _ => isFalse nofun
  | .array items, b => match b with
    | .array others =>
      have := decEqItems items others
      decidable_of_iff (items = others) ⟨congrArg _, Json.array.inj⟩
    | .null | .bool _ | .int _ | .float _ | .string _ | .object _ => isFalse nofun
  | .object fields, b => match b with
    | .object others =>
      have := decEqFields fields others
      decidable_of_iff (fields = others) ⟨congrArg _, Json.object.inj⟩
    | .null | .bool _ | .int _ | .float _ | .string _ | .array _ => isFalse nofun

/-- Decides whether two lists of values are the same. -/
def decEqItems : (items others : List Json) → Decidable (items = others)
  | [], [] => isTrue rfl
  | [], _ :: _ | _ :: _, [] => isFalse nofun
  | a :: items, b :: others =>
    have := decEq a b
    have := decEqItems items others
    decidable_of_iff (a = b ∧ items = others) List.cons_eq_cons.symm

/-- Decides whether two lists of fields are the same. -/
def decEqFields : (fields others : List (Text × Json)) → Decidable (fields = others)
  | [], [] => isTrue rfl
  | [], _ :: _ | _ :: _, [] => isFalse nofun
  | (k, a) :: fields, (l, b) :: others =>
    have := decEq a b
    have := decEqFields fields others
    decidable_of_iff ((k = l ∧ a = b) ∧ fields = others)
      (by rw [List.cons_eq_cons, Prod.mk.injEq])

end

instance : DecidableEq Json := decEq

end Json

deriving instance DecidableEq for Instruction, Program

end FlatCode
