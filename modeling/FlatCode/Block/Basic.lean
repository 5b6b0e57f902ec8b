import FlatCode.Block.Scan

/-!
# Blocks

A block is a begin marker, the end marker that belongs to it, and what stands between them. Blocks
are built only from markers that belong together (`Block.ofEnds`).
-/

namespace FlatCode

/-- The numbers from `start` up to `stop`, which is left out. -/
def upTo (start stop : Int) : List Int :=
  (List.range (stop - start).toNat).map fun n : Nat => start + n

/-- One block of a program, given by the places of its begin and its end. -/
structure Block where
  program : Program
  head : Nat
  tail : Nat

namespace Block

/-- The block between two indices, which have to begin and end the same block. -/
def ofEnds (program : Program) (head tail : Int) : Except StructureError Block :=
  match program.placeWith head .blockBegin with
  | .error e => .error e
  | .ok first =>
    match program.placeWith tail .blockEnd with
    | .error e => .error e
    | .ok last =>
      match program.blockBegin tail with
      | .error e => .error e
      | .ok opening =>
        if opening ≠ first then .error (.notSameBlock head tail)
        else
          match program.blockEnd head with
          | .error e => .error e
          | .ok closing =>
            if closing ≠ last then .error (.notSameBlock head tail)
            else .ok ⟨program, first, last⟩

/-- The block that begins at an index. -/
def startingAt (program : Program) (head : Int) : Except StructureError Block :=
  match program.blockEnd head with
  | .error e => .error e
  | .ok tail => ofEnds program head tail

/-- The block that ends at an index. -/
def endingAt (program : Program) (tail : Int) : Except StructureError Block :=
  match program.blockBegin tail with
  | .error e => .error e
  | .ok head => ofEnds program head tail

/-- The number of instructions, both ends included. -/
def size (block : Block) : Nat := block.tail - block.head + 1

/-- The name of the operation at a place. -/
def nameAt (block : Block) (n : Nat) : Text :=
  (block.program.instructions[n]?.map Instruction.name).getD ""

/-- The name of the operation that begins the block. -/
def beginName (block : Block) : Text := block.nameAt block.head

/-- The name of the operation that ends the block. -/
def endName (block : Block) : Text := block.nameAt block.tail

/-- The indices strictly between begin and end. -/
def body (block : Block) : List Int := upTo (block.head + 1) block.tail

/-- Whether two blocks of one program are the same. -/
def same (a b : Block) : Bool := a.head == b.head && a.tail == b.tail

end Block

end FlatCode
