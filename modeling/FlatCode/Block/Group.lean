import FlatCode.Block.Basic

/-!
# Block groups

A group is a chain of blocks: it begins at a marker that ends no block, ends at one that begins
none, and the markers between them end one block and begin the next. A group is given by the list of
its boundaries.

`BlockGroup.ofBoundaries` looks at the two ends only. `Program.groups` lists all groups of a program
in the order in which they end; it answers exactly when all markers fit together, so it decides
which programs are well formed.
-/

namespace FlatCode

/-- A group of blocks, given by its boundaries. -/
structure BlockGroup where
  program : Program
  boundaries : List Int

namespace BlockGroup

/-- The first boundary. -/
def head (group : BlockGroup) : Int := group.boundaries.head?.getD 0

/-- The last boundary. -/
def tail (group : BlockGroup) : Int := group.boundaries.getLast?.getD 0

/-- The group of a list of boundaries, of which the first begins a group and the last ends one. -/
def ofBoundaries (program : Program) (boundaries : List Int) :
    Except StructureError BlockGroup :=
  let group : BlockGroup := ⟨program, boundaries⟩
  if boundaries.length < 2 then .error (.tooFewBoundaries boundaries)
  else
    match program.at? group.head with
    | none => .error .noSuchItem
    | some first =>
      if !first.operation.groupBegin then .error (.headNotGroupBegin group.head first.name)
      else
        match program.at? group.tail with
        | none => .error .noSuchItem
        | some last =>
          if !last.operation.groupEnd then .error (.tailNotGroupEnd group.tail last.name)
          else .ok group

/-- The group that begins at an index. -/
def startingAt (program : Program) (head : Int) : Except StructureError BlockGroup :=
  match program.groupBoundaries head with
  | .error e => .error e
  | .ok boundaries => ofBoundaries program (boundaries.map fun n : Nat => (n : Int))

/-- The innermost group around an index. -/
def surrounding (program : Program) (idx : Int) : Except StructureError BlockGroup :=
  match program.groupHead idx with
  | .error e => .error e
  | .ok head => startingAt program head

/-- The number of instructions from the first to the last boundary. -/
def size (group : BlockGroup) : Int := group.tail - group.head + 1

/-- The name of the operation that begins the group. -/
def beginName (group : BlockGroup) : Text :=
  ((group.program.at? group.head).map Instruction.name).getD ""

/-- The name of the operation that ends the group. -/
def endName (group : BlockGroup) : Text :=
  ((group.program.at? group.tail).map Instruction.name).getD ""

/-- The number of blocks. -/
def numBlocks (group : BlockGroup) : Nat := group.boundaries.length - 1

/-- The boundary at a position; a negative position counts from the end. -/
def boundary (group : BlockGroup) (i : Int) : Except StructureError Int :=
  match select? group.boundaries i with
  | some idx => .ok idx
  | none => .error .noSuchItem

/-- The block between a boundary and the next. -/
def block (group : BlockGroup) (i : Int) : Except StructureError Block :=
  match group.boundary i with
  | .error e => .error e
  | .ok head =>
    match group.boundary (i + 1) with
    | .error e => .error e
    | .ok tail => Block.ofEnds group.program head tail

/-- All blocks of the group, in order. -/
def blocks (group : BlockGroup) : Except StructureError (List Block) :=
  (List.range group.numBlocks).mapM fun i : Nat => group.block i

/-- All indices from the first to the last boundary. -/
def range (group : BlockGroup) : List Int := upTo group.head (group.tail + 1)

/-- Whether two groups of one program are the same. -/
def same (a b : BlockGroup) : Bool := a.boundaries == b.boundaries

end BlockGroup

/-! ## All groups of a program -/

/-- A group whose end has not been seen: its begin and its dividers so far. -/
structure OpenGroup where
  head : Nat
  dividers : List Nat

/-- Walks over the instructions of a program from a place on with the open groups, innermost first,
and lists the groups that end. A group is built where its end is seen. -/
def closingGroups (program : Program) : Nat → List OpenGroup → List Instruction →
    Except StructureError (List BlockGroup)
  | _, stack, [] =>
    match stack with
    | [] => .ok []
    | group :: _ => .error (.groupNeverClosed group.head)
  | idx, stack, instr :: rest =>
    match instr.marker with
    | .plain => closingGroups program (idx + 1) stack rest
    | .groupBegin => closingGroups program (idx + 1) (⟨idx, []⟩ :: stack) rest
    | .divider =>
      match stack with
      | [] => .error (.neverOpened idx instr.name)
      | group :: outer =>
        closingGroups program (idx + 1) (⟨group.head, group.dividers ++ [idx]⟩ :: outer) rest
    | .groupEnd =>
      match stack with
      | [] => .error (.neverOpened idx instr.name)
      | group :: outer =>
        match BlockGroup.ofBoundaries program
          ((group.head :: group.dividers ++ [idx]).map fun n : Nat => (n : Int)) with
        | .error e => .error e
        | .ok closed => (closingGroups program (idx + 1) outer rest).map (closed :: ·)

namespace Program

/-- All groups, in the order in which they end. -/
def groups (program : Program) : Except StructureError (List BlockGroup) :=
  closingGroups program 0 [] program.instructions

/-- All groups, in the order in which they begin. -/
def groupsByHead (program : Program) : Except StructureError (List BlockGroup) :=
  program.groups.map fun groups => groups.mergeSort fun a b => a.head ≤ b.head

/-- Fails unless all markers fit together. -/
def checkWellFormed (program : Program) : Except StructureError Unit :=
  program.groups.map fun _ => ()

/-- Whether all markers fit together. -/
def isWellFormed (program : Program) : Bool := program.checkWellFormed.isOk

end Program

end FlatCode
