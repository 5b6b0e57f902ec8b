import FlatCode.Operation.Registry
import FlatCode.Json.Equal
import FlatCode.Json.Writer

/-!
# Programs

A program is a flat list of instructions, each an operation with arguments. Control structure is in
the markers of the operations alone (`Program.markers`).

An instruction keeps the operation it was built with. Two programs count as the same when names and
arguments agree (`Program.same`); the facets of the operations are not compared.

Indices count from zero. Where an index selects from a list, a negative one counts from the end
(`select?`); edits take no negative index.
-/

namespace FlatCode

/-- The item at an index; a negative index counts from the end. -/
def select? {α : Type} (items : List α) (idx : Int) : Option α :=
  if 0 ≤ idx then items[idx.toNat]?
  else if 0 ≤ items.length + idx then items[(items.length + idx).toNat]?
  else none

theorem select?_natCast {α : Type} (items : List α) (idx : Nat) :
    select? items (idx : Int) = items[idx]? := by
  simp [select?]

/-! ## Instructions -/

/-- An operation with its arguments. -/
structure Instruction where
  operation : Operation
  args : List Json

namespace Instruction

/-- The name of the operation. -/
def name (instr : Instruction) : Text := instr.operation.name

/-- What the instruction does to the nesting. -/
def marker (instr : Instruction) : Marker := instr.operation.marker

/-- The instruction that stands for a removed one. -/
def nop : Instruction := ⟨.nop, []⟩

/-- Whether the instruction does nothing. -/
def isNop (instr : Instruction) : Bool := instr.name == Operation.nop.name

/-- Whether the instruction is a remark. -/
def isComment (instr : Instruction) : Bool := instr.name == Operation.comment.name

/-- Whether name and arguments agree. -/
def same (a b : Instruction) : Bool := a.name == b.name && Json.sameItems a.args b.args

/-- The instruction of a registered name. -/
def ofName (registry : Registry) (name : Text) (args : List Json) :
    Except DeclarationError Instruction :=
  (registry.lookup name).map fun operation => ⟨operation, args⟩

/-- An argument as it is shown: a string as it is, all else as JSON. -/
def showArg : Json → Text
  | .string s => s
  | value => .ofChars (Json.write .spaced value)

/-- The instruction on one line, for listings. -/
def display (instr : Instruction) : Text :=
  [.char ' '].intercalate (instr.name :: instr.args.map showArg)

end Instruction

/-! ## Programs -/

/-- A flat program. -/
structure Program where
  instructions : List Instruction

/-- Why an edit is refused. -/
inductive EditError where
  /-- No instruction has the index. -/
  | outOfRange (idx : Int)
  deriving DecidableEq, Repr

/-- The wording of a refused edit. -/
def EditError.message : EditError → String
  | .outOfRange idx => s!"Instruction index {idx} out of range"

namespace Program

/-- The program without instructions. -/
def empty : Program := ⟨[]⟩

/-- The number of instructions. -/
def size (program : Program) : Nat := program.instructions.length

/-- The markers of the instructions, in order. -/
def markers (program : Program) : List Marker := program.instructions.map Instruction.marker

/-- The names of the operations, in order. -/
def names (program : Program) : List Text := program.instructions.map Instruction.name

/-- The instruction at an index; a negative index counts from the end. -/
def at? (program : Program) (idx : Int) : Option Instruction := select? program.instructions idx

theorem at?_natCast (program : Program) (n : Nat) :
    program.at? (n : Int) = program.instructions[n]? :=
  select?_natCast program.instructions n

/-- How many instructions have a name. -/
def count (program : Program) (name : Text) : Nat :=
  program.instructions.countP fun instr => instr.name == name

/-- How many instructions do something. -/
def payload (program : Program) : Nat := program.instructions.countP fun instr => !instr.isNop

/-- The program with one more instruction at its end. -/
def push (program : Program) (instr : Instruction) : Program := ⟨program.instructions ++ [instr]⟩

/-- The program with an instruction of a registered name at its end. -/
def emit (program : Program) (registry : Registry) (name : Text) (args : List Json) :
    Except DeclarationError Program :=
  (Instruction.ofName registry name args).map program.push

/-- The program of instructions of registered names with their arguments. -/
def ofCalls (registry : Registry) (calls : List (Text × List Json)) :
    Except DeclarationError Program :=
  calls.foldlM (fun program call => program.emit registry call.1 call.2) empty

/-- The program of instructions of registered names without arguments. -/
def ofNames (registry : Registry) (names : List Text) : Except DeclarationError Program :=
  ofCalls registry (names.map fun name => (name, []))

/-- The program with the instruction at a place exchanged; a place behind the end changes nothing. -/
def set (program : Program) (idx : Nat) (instr : Instruction) : Program :=
  ⟨program.instructions.set idx instr⟩

/-- The program with the instruction at an index exchanged. -/
def replace (program : Program) (idx : Int) (instr : Instruction) : Except EditError Program :=
  if 0 ≤ idx ∧ idx < program.size then .ok (program.set idx.toNat instr)
  else .error (.outOfRange idx)

/-- The program with the instruction at an index removed; the length stays. -/
def nop (program : Program) (idx : Int) : Except EditError Program := program.replace idx .nop

/-- The program with the instructions at several indices removed. -/
def nopAll (program : Program) (indices : List Int) : Except EditError Program :=
  indices.foldlM nop program

/-- The program with the instructions at several indices removed, up to the first edit that is
refused. -/
def nopUntilRefused (program : Program) : List Int → Program
  | [] => program
  | idx :: rest =>
    match program.nop idx with
    | .ok edited => edited.nopUntilRefused rest
    | .error _ => program

/-- Whether names and arguments agree, instruction by instruction. -/
def same (a b : Program) : Bool :=
  a.size == b.size && (a.instructions.zip b.instructions).all fun (x, y) => x.same y

/-- The program as it is shown, an instruction on each line. -/
def display (program : Program) : Text :=
  [.char '\n'].intercalate (program.instructions.map Instruction.display)

end Program

end FlatCode
