import FlatCode.Program.Basic

/-!
# Errors about block structure

Three kinds: the program's markers do not fit together (`malformed`), a question was asked of an
instruction that cannot answer it (`precondition`), or a list of indices selects no instruction
(`selection`).
-/

namespace FlatCode

/-- What an instruction has to be for a question about blocks. -/
inductive Facet where
  | blockBegin
  | blockEnd
  | groupBegin
  deriving DecidableEq, Repr

/-- Whether an instruction has a facet. -/
def Facet.holds (facet : Facet) (instr : Instruction) : Bool :=
  match facet with
  | .blockBegin => instr.operation.blockBegin
  | .blockEnd => instr.operation.blockEnd
  | .groupBegin => instr.operation.groupBegin

/-- How a facet is named in a message. -/
def Facet.name : Facet → String
  | .blockBegin => "is_block_begin"
  | .blockEnd => "is_block_end"
  | .groupBegin => "is_block_group_begin"

/-- Why a question about block structure has no answer. -/
inductive StructureError where
  /-- No instruction has the index. -/
  | outOfRange (idx : Int) (size : Nat)
  /-- The instruction lacks a facet. -/
  | lacksFacet (idx : Nat) (name : Text) (facet : Facet)
  /-- Two instructions begin and end different blocks. -/
  | notSameBlock (head tail : Int)
  /-- A scan for a block end stopped at an instruction that ends none. -/
  | closesOnNonEnd (start idx : Nat)
  /-- The program ends inside a block. -/
  | blockNeverClosed (start : Nat)
  /-- A scan for a block begin stopped at an instruction that begins none. -/
  | opensOnNonBegin (stop idx : Nat)
  /-- The program starts inside a block. -/
  | blockNeverOpened (stop : Nat)
  /-- A scan for a group begin stopped at an instruction that begins none. -/
  | opensOnNonGroupBegin (start idx : Nat)
  /-- No group is around an instruction. -/
  | noGroupAround (start : Nat)
  /-- A scan for a group end stopped at an instruction that ends none. -/
  | closesOnNonGroupEnd (start idx : Nat)
  /-- The program ends inside a group. -/
  | groupNeverClosed (start : Nat)
  /-- An instruction ends a block, and none is open. -/
  | neverOpened (idx : Nat) (name : Text)
  /-- Blocks are open at the end of the program. -/
  | leftOpen (count : Nat)
  /-- A group has at least a begin and an end. -/
  | tooFewBoundaries (boundaries : List Int)
  /-- The first boundary begins no group. -/
  | headNotGroupBegin (head : Int) (name : Text)
  /-- The last boundary ends no group. -/
  | tailNotGroupEnd (tail : Int) (name : Text)
  /-- An index selects nothing. -/
  | noSuchItem
  deriving DecidableEq, Repr

/-- The kinds of error about block structure. -/
inductive StructureError.Kind where
  | malformed
  | precondition
  | selection
  deriving DecidableEq, Repr

namespace StructureError

/-- The kind of an error. -/
def kind : StructureError → Kind
  | .outOfRange .. | .lacksFacet .. | .notSameBlock .. => .precondition
  | .noSuchItem => .selection
  | _ => .malformed

/-- A list of indices as it is shown. -/
def showIndices (indices : List Int) : String :=
  "[" ++ ", ".intercalate (indices.map fun idx => s!"{idx}") ++ "]"

/-- The wording of an error. -/
def message : StructureError → Text
  | .outOfRange idx size => s!"Index {idx} is out of range for a program of {size} instructions"
  | .lacksFacet idx name facet =>
    s!"Instruction {idx} (" ++ name ++ s!") does not satisfy {facet.name}"
  | .notSameBlock head tail => s!"Instructions {head} and {tail} do not delimit the same block"
  | .closesOnNonEnd start idx => s!"Block opened at {start} closes on non-end instruction {idx}"
  | .blockNeverClosed start => s!"Block opened at {start} is never closed"
  | .opensOnNonBegin stop idx => s!"Block closed at {stop} opens on non-begin instruction {idx}"
  | .blockNeverOpened stop => s!"Block closed at {stop} is never opened"
  | .opensOnNonGroupBegin start idx =>
    s!"Group around {start} opens on non-group-begin instruction {idx}"
  | .noGroupAround start => s!"No block group surrounds instruction {start}"
  | .closesOnNonGroupEnd start idx =>
    s!"Group opened at {start} closes on non-group-end instruction {idx}"
  | .groupNeverClosed start => s!"Block group opened at {start} is never closed"
  | .neverOpened idx name =>
    s!"Instruction {idx} (" ++ name ++ ") closes a block that was never opened"
  | .leftOpen count => s!"{count} block(s) left open at end of program"
  | .tooFewBoundaries boundaries =>
    s!"A block group needs at least two block instructions, got {showIndices boundaries}"
  | .headNotGroupBegin head name =>
    s!"Block group head {head} (" ++ name ++ ") is not a group begin"
  | .tailNotGroupEnd tail name =>
    s!"Block group tail {tail} (" ++ name ++ ") is not a group end"
  | .noSuchItem => "list index out of range"

end StructureError

end FlatCode
