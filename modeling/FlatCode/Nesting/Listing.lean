import FlatCode.Block.Group
import FlatCode.Block.Depth

/-!
# The listing of groups

All groups of a program with their boundaries and their blocks, by head, indented by nesting depth.
-/

namespace FlatCode

/-- The indentation of listings: four spaces a level. -/
def listingPad (depth : Nat) : String := String.ofList (List.replicate (4 * depth) ' ')

/-- The line of a block. -/
def Block.listing (pad : String) (block : Block) : String :=
  s!"{pad}  block {block.head}..{block.tail}: {block.body.length} instruction(s)\n"

/-- The line of a group and those of its blocks. -/
def BlockGroup.listing (depths : List Nat) (group : BlockGroup) : Except StructureError Text :=
  let pad := listingPad (depths.getD group.head.toNat 0)
  group.blocks.map fun blocks =>
    pad ++ group.beginName ++ s!" group {StructureError.showIndices group.boundaries} "
      ++ s!"({group.numBlocks} block(s))\n" ++ String.join (blocks.map (Block.listing pad))

/-- The listing of a program. -/
def Program.listing (program : Program) : Except StructureError Text :=
  match program.depths with
  | .error e => .error e
  | .ok depths =>
    match program.groupsByHead with
    | .error e => .error e
    | .ok groups => (groups.mapM (BlockGroup.listing depths)).map List.flatten

end FlatCode
