import FlatCode.Reduction.Attempt

/-!
# Reducers

Two ways to go through a program with attempts.

* `Reducer.groups` — each block group, inner ones first: the whole group, and if that is not
  accepted its boundaries alone, so that the bodies stay
* `Reducer.instructions` — each simple instruction, from the last to the first, remarks excepted

Removing keeps the length, so the groups found at the start keep their places.

## Termination

The first recurses on the list of groups, the second on the index it comes to.
-/

namespace FlatCode

variable {σ ε : Type}

/-- Whether the instruction reducer tries to remove an instruction. -/
def Instruction.isCandidate (instr : Instruction) : Bool :=
  instr.operation.simple && !instr.isNop && !instr.isComment

/-- Tries the simple instructions in front of a place, last first. -/
def removeInstructions (oracle : Oracle σ ε) : Nat → Step σ ε Unit
  | 0, run => (.ok (), run)
  | idx + 1, run =>
    match run.program.instructions[idx]? with
    | none => (.error .noSuchItem, run)
    | some instr =>
      if instr.isCandidate then
        match attemptOne oracle idx run with
        | (.error e, run) => (.error e, run)
        | (.ok _, run) => removeInstructions oracle idx run
      else removeInstructions oracle idx run

/-- Tries groups: each as a whole, else its boundaries alone. A group whose head begins no group any
more is passed over. -/
def removeGroups (oracle : Oracle σ ε) : List BlockGroup → Step σ ε Unit
  | [], run => (.ok (), run)
  | group :: rest, run =>
    match run.program.at? group.head with
    | none => (.error .noSuchItem, run)
    | some instr =>
      if !instr.operation.groupBegin then removeGroups oracle rest run
      else
        match attempt oracle group.range run with
        | (.error e, run) => (.error e, run)
        | (.ok true, run) => removeGroups oracle rest run
        | (.ok false, run) =>
          match attempt oracle group.boundaries run with
          | (.error e, run) => (.error e, run)
          | (.ok _, run) => removeGroups oracle rest run

/-- A way to go through a program with attempts. -/
inductive Reducer where
  | groups
  | instructions
  deriving DecidableEq, Repr

/-- The name of a reducer. -/
def Reducer.name : Reducer → String
  | .groups => "blocks"
  | .instructions => "instructions"

/-- The reducers of a reduction that names none, in their order. -/
def Reducer.standard : List Reducer := [.groups, .instructions]

/-- Goes through the program with attempts. -/
def Reducer.reduce (oracle : Oracle σ ε) : Reducer → Step σ ε Unit
  | .groups, run =>
    match run.program.groups with
    | .error e => (.error (.structural e), run)
    | .ok found => removeGroups oracle found run
  | .instructions, run => removeInstructions oracle run.program.size run

end FlatCode
