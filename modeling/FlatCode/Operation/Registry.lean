import FlatCode.Operation.Declaration

/-!
# The registry of operations

The operations that programs may use, in the order in which they came: the built-in ones first.
Registering adds operations and never replaces one; the first duplicate stops it, and the operations
in front of it stay registered. Clearing leaves the built-in ones.
-/

namespace FlatCode

/-- The known operations, in order. -/
structure Registry where
  entries : List Operation
  deriving DecidableEq, Repr

namespace Registry

/-- The registry of the built-in operations. -/
def builtin : Registry := ⟨Operation.builtins⟩

/-- The operation of a name. -/
def find? (registry : Registry) (name : Text) : Option Operation :=
  registry.entries.find? fun op => op.name == name

/-- The operation of a name, or the error that there is none. -/
def lookup (registry : Registry) (name : Text) : Except DeclarationError Operation :=
  match registry.find? name with
  | some op => .ok op
  | none => .error (.unknown name)

/-- The registry with one more operation at its end. -/
def push (registry : Registry) (op : Operation) : Registry := ⟨registry.entries ++ [op]⟩

/-- Adds operations one by one, up to the first whose name is taken. -/
def add (registry : Registry) : List Operation → Except DeclarationError Unit × Registry
  | [] => (.ok (), registry)
  | op :: rest =>
    match registry.find? op.name with
    | some _ => (.error (.duplicate op.name), registry)
    | none => (registry.push op).add rest

/-- Registers what a declaration declares, if asked for after going back to the built-in operations.
The declaration is read as a whole before the first operation is added. -/
def register (registry : Registry) (declaration : Declaration) (reset : Bool) :
    Except DeclarationError Unit × Registry :=
  let base := if reset then builtin else registry
  match declaration.operations with
  | .error e => (.error e, base)
  | .ok ops => base.add ops

/-- The operations that are not built in, in order. -/
def custom (registry : Registry) : List Operation :=
  registry.entries.filter fun op => !Operation.builtins.any fun b => b.name == op.name

end Registry

end FlatCode
