import FlatCode.Program.Basic

/-!
# Program documents

A program as a JSON object: the version of the format and the list of instructions, each an object
with the name of its operation and its arguments.

Documents are read as they come: whatever can be gone through item by item stands for a list (an
object by its keys, a text by its characters), and arguments that count as false are none.
-/

namespace FlatCode

/-- Why a document is not read. -/
inductive DocumentError where
  /-- The document is no object or has no instructions. -/
  | missingInstructions
  /-- The instructions are no list. -/
  | instructionsNotList
  /-- An instruction is no object. -/
  | entryNotObject
  /-- An instruction has no operation. -/
  | operationMissing
  /-- The operation is a list or an object. -/
  | operationNotName
  /-- The operation is not known. -/
  | operation (error : DeclarationError)
  /-- The arguments are no list. -/
  | argumentsNotList
  deriving DecidableEq, Repr

/-- The wording of an error. -/
def DocumentError.message : DocumentError → Text
  | .missingInstructions => "Program document missing 'instructions'"
  | .instructionsNotList => "Program instructions must be a list"
  | .entryNotObject => "Program instruction must be an object"
  | .operationMissing => "'op'"
  | .operationNotName => "Program operation must be a name"
  | .operation error => error.message
  | .argumentsNotList => "Program arguments must be a list"

namespace Json

/-- The items of a value: of a list, the keys of an object, the characters of a text. -/
def items? : Json → Option (List Json)
  | .array items => some items
  | .object fields => some (fields.map fun field => .string field.1)
  | .string s => some (s.map fun c => .string [c])
  | _ => none

/-- The name that a value stands for when it is looked up; lists and objects stand for none. -/
def lookupName? : Json → Option Text
  | .string s => some s
  | .null => some "None"
  | .bool b => some (if b then "True" else "False")
  | .int n => some (.ofChars (writeInt n))
  | .float (.infinite negative) => some (if negative then "-inf" else "inf")
  | .float .nan => some "nan"
  | .float x => some (.ofChars (writeFloat x))
  | .array _ | .object _ => none

end Json

/-- The operation that a value names. Only a text is the name of an operation. -/
def Registry.lookupJson (registry : Registry) (value : Json) : Except DocumentError Operation :=
  match value, value.lookupName? with
  | .string name, _ => (registry.lookup name).mapError .operation
  | _, some name => .error (.operation (.unknown name))
  | _, none => .error .operationNotName

namespace Instruction

/-- The document of an instruction. -/
def toJson (instr : Instruction) : Json :=
  .object [("op", .string instr.name), ("args", .array instr.args)]

/-- The arguments that a value stands for. -/
def argsOfJson (value : Json) : Except DocumentError (List Json) :=
  if !value.truthy then .ok []
  else match value.items? with
    | some items => .ok items
    | none => .error .argumentsNotList

/-- The instruction of a document; its operation is looked up before its arguments are read. -/
def ofJson (registry : Registry) : Json → Except DocumentError Instruction
  | .object fields =>
    match Json.field? "op" fields with
    | none => .error .operationMissing
    | some name =>
      match registry.lookupJson name with
      | .error e => .error e
      | .ok operation =>
        (argsOfJson ((Json.field? "args" fields).getD (.array []))).map fun args => ⟨operation, args⟩
  | _ => .error .entryNotObject

end Instruction

namespace Program

/-- The version of the document format. -/
def formatVersion : String := "0.1"

/-- The documents of the instructions, in order. -/
def instructionsJson (program : Program) : Json :=
  .array (program.instructions.map Instruction.toJson)

/-- The document of a program. -/
def toJson (program : Program) : Json :=
  .object [("fuzzblocks_version", .string formatVersion),
    ("instructions", program.instructionsJson)]

/-- The program of a document. -/
def ofJson (registry : Registry) : Json → Except DocumentError Program
  | .object fields =>
    match Json.field? "instructions" fields with
    | none => .error .missingInstructions
    | some value =>
      match value.items? with
      | none => .error .instructionsNotList
      | some entries => (entries.mapM (Instruction.ofJson registry)).map Program.mk
  | _ => .error .missingInstructions

end Program

end FlatCode
