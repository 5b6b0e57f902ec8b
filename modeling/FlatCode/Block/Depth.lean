import FlatCode.Block.Error

/-!
# Nesting depths

The depth of an instruction is the number of blocks it stands in. A marker has the depth of the
level it begins or ends, so all boundaries of a group have one depth.
-/

namespace FlatCode

/-- The depths of instructions from a place on, with the number of blocks that are open there. -/
def depthsFrom : Nat → Nat → List Instruction → Except StructureError (List Nat)
  | _, 0, [] => .ok []
  | _, depth + 1, [] => .error (.leftOpen (depth + 1))
  | idx, depth, instr :: rest =>
    if instr.marker.closes && depth == 0 then .error (.neverOpened idx instr.name)
    else
      let level := if instr.marker.closes then depth - 1 else depth
      (depthsFrom (idx + 1) (if instr.marker.opens then level + 1 else level) rest).map (level :: ·)

/-- The depth of each instruction. -/
def Program.depths (program : Program) : Except StructureError (List Nat) :=
  depthsFrom 0 0 program.instructions

end FlatCode
