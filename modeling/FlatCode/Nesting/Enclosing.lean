import FlatCode.Block.Group

/-!
# What encloses a group

Each group stands in a block of another group, or at the top. `Program.enclosingBlocks` finds that
block in one walk, `Program.groupNesting` the group that owns it.
-/

namespace FlatCode

/-- Why the nesting of groups has no answer. -/
inductive NestingError where
  | structural (error : StructureError)
  /-- A marker belongs to an open group, and none is open. -/
  | noOpenGroup (idx : Nat)
  /-- A block belongs to no group. -/
  | unownedBlock (head : Nat)
  deriving DecidableEq, Repr

/-- The wording of an error. -/
def NestingError.message : NestingError → Text
  | .structural error => error.message
  | .noOpenGroup idx => s!"Instruction {idx} belongs to no open block group"
  | .unownedBlock head => s!"Block at {head} belongs to no block group"

/-- Walks over the instructions from a place on, with the heads of the blocks that are open, and
lists each group head with the head of the block around it. -/
def enclosingFrom : Nat → List Nat → List Instruction →
    Except NestingError (List (Nat × Option Nat))
  | _, _, [] => .ok []
  | idx, stack, instr :: rest =>
    match instr.marker with
    | .plain => enclosingFrom (idx + 1) stack rest
    | .groupBegin => (enclosingFrom (idx + 1) (idx :: stack) rest).map ((idx, stack.head?) :: ·)
    | .divider =>
      match stack with
      | [] => .error (.noOpenGroup idx)
      | _ :: outer => enclosingFrom (idx + 1) (idx :: outer) rest
    | .groupEnd =>
      match stack with
      | [] => .error (.noOpenGroup idx)
      | _ :: outer => enclosingFrom (idx + 1) outer rest

namespace Program

/-- Each group head with the head of the block around it, in program order. -/
def enclosingBlocks (program : Program) : Except NestingError (List (Nat × Option Nat)) :=
  enclosingFrom 0 [] program.instructions

/-- The groups of a program, each with its blocks. -/
def groupsWithBlocks (groups : List BlockGroup) :
    Except StructureError (List (BlockGroup × List Block)) :=
  groups.mapM fun group => group.blocks.map fun blocks => (group, blocks)

/-- The group heads of the blocks: each block head with the head of its group. -/
def owners (groups : List (BlockGroup × List Block)) : List (Nat × Int) :=
  groups.flatMap fun (group, blocks) => blocks.map fun block => (block.head, group.head)

/-- Each group head with the head of the innermost group around it, in program order. -/
def groupNesting (program : Program) : Except NestingError (List (Nat × Option Int)) :=
  match program.groups with
  | .error e => .error (.structural e)
  | .ok groups =>
    match groupsWithBlocks groups with
    | .error e => .error (.structural e)
    | .ok groups =>
      match program.enclosingBlocks with
      | .error e => .error e
      | .ok enclosing =>
        enclosing.mapM fun (head, around) =>
          match around with
          | none => .ok (head, none)
          | some block =>
            match (owners groups).lookup block with
            | some owner => .ok (head, some owner)
            | none => .error (.unownedBlock block)

end Program

end FlatCode
