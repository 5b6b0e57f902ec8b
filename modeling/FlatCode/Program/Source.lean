import FlatCode.Program.Arguments
import FlatCode.Block.Depth

/-!
# The line text of programs

Each line holds one instruction: the name of its operation and its arguments. Blank lines and lines
that start with `#` are skipped, indentation has no meaning. Written text is indented by nesting
depth, so only programs whose markers fit together can be written.

An error of a line carries the number of the line; every line counts, also a skipped one.
-/

namespace FlatCode

open Text

/-- Why a line is not read. -/
inductive LineError where
  | argument (error : ArgumentError)
  | operation (error : DeclarationError)
  deriving DecidableEq, Repr

/-- The wording of an error of a line. -/
def LineError.message : LineError → Text
  | .argument error => error.message
  | .operation error => error.message

/-- Why a text is not read: the first line with an error. -/
structure SourceError where
  line : Nat
  cause : LineError
  deriving DecidableEq, Repr

/-- The wording of an error of a text. -/
def SourceError.message (error : SourceError) : Text :=
  s!"Line {error.line}: " ++ error.cause.message

/-- Why a program is not written. -/
inductive FormatError where
  | structural (error : StructureError)
  | argument (error : ArgumentError)
  deriving DecidableEq, Repr

/-- The wording of an error of writing. -/
def FormatError.message : FormatError → Text
  | .structural error => error.message
  | .argument error => error.message

/-! ## Reading -/

/-- The instruction of a trimmed line that is not skipped. The arguments are read before the
operation is looked up. -/
def Instruction.ofEntry (registry : Registry) (entry : Text) : Except LineError Instruction :=
  match Arguments.read (afterWord entry) with
  | .error e => .error (.argument e)
  | .ok args => (ofName registry (firstWord entry) args).mapError .operation

/-- Whether a trimmed line holds no instruction. -/
def isSkipped : Text → Bool
  | [] => true
  | c :: _ => c == .char '#'

/-- The instructions of lines, of which the first has the given number. -/
def instructionsFrom (registry : Registry) : Nat → List Text →
    Except SourceError (List Instruction)
  | _, [] => .ok []
  | number, line :: lines =>
    let entry := trim line
    if isSkipped entry then instructionsFrom registry (number + 1) lines
    else
      match Instruction.ofEntry registry entry with
      | .error cause => .error ⟨number, cause⟩
      | .ok instr => (instructionsFrom registry (number + 1) lines).map (instr :: ·)

namespace Program

/-- The program of a text. -/
def parse (registry : Registry) (text : Text) : Except SourceError Program :=
  (instructionsFrom registry 1 (splitLines text)).map Program.mk

/-! ## Writing -/

/-- The indentation of a nesting depth: four spaces a level. -/
def indentation (depth : Nat) : Text := List.replicate (4 * depth) (.char ' ')

/-- The line of an instruction at a depth. -/
def formatLine (depth : Nat) (instr : Instruction) : Except ArgumentError Text :=
  (instr.args.mapM Arguments.write).map fun args =>
    indentation depth ++ List.intercalate [.char ' '] (instr.name :: args)

/-- The text of a program. -/
def format (program : Program) : Except FormatError Text :=
  match program.depths with
  | .error e => .error (.structural e)
  | .ok depths =>
    match (depths.zip program.instructions).mapM fun (depth, instr) => formatLine depth instr with
    | .error e => .error (.argument e)
    | .ok lines => .ok (lines.flatMap fun line => line ++ [.char '\n'])

end Program

end FlatCode
