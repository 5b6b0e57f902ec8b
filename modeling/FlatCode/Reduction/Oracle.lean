import FlatCode.Block.Group

/-!
# Oracles

An oracle judges candidates: programs from which some instructions have been removed. It has a state
of its own, it may fail, and it sees the program that is being reduced and may change it; what it
leaves behind counts also when it fails.

* `Oracle.guarded` asks another oracle only about candidates whose markers fit together
* `Oracle.keeping` accepts candidates that keep enough instructions of named operations
-/

namespace FlatCode

/-- A judge of candidates, with states `σ` and errors `ε`. -/
structure Oracle (σ ε : Type) where
  /-- The answer about a candidate, the state after it, and the program being reduced after it. -/
  judge (candidate : Program) (state : σ) (current : Program) : Except ε Bool × σ × Program

namespace Oracle

variable {σ ε : Type}

/-- The oracle of a function of the candidate alone. -/
def ofPredicate (accepts : Program → Bool) : Oracle σ ε :=
  ⟨fun candidate state current => (.ok (accepts candidate), state, current)⟩

/-- Asks only about well-formed candidates, if that is required, and rejects the others. -/
def guarded (required : Bool) (oracle : Oracle σ ε) : Oracle σ ε :=
  ⟨fun candidate state current =>
    if required && !candidate.isWellFormed then (.ok false, state, current)
    else oracle.judge candidate state current⟩

/-! ## Keeping operations -/

/-- How many instructions of each of some operations have to stay. -/
abbrev Required := List (Text × Nat)

/-- The numbers of the instructions that a program has of registered names, each name once. -/
def required (registry : Registry) (program : Program) :
    List Text → Except DeclarationError Required
  | [] => .ok []
  | name :: names =>
    match registry.lookup name with
    | .error e => .error e
    | .ok op =>
      (required registry program names).map fun rest =>
        (op.name, program.count op.name) :: rest.filter fun entry => entry.1 != op.name

/-- Whether a program has at least the required numbers of instructions. -/
def keepsAll (required : Required) (candidate : Program) : Bool :=
  required.all fun entry => entry.2 ≤ candidate.count entry.1

/-- Accepts what keeps the required instructions. -/
def keeping (required : Required) : Oracle σ ε := ofPredicate (keepsAll required)

end Oracle

end FlatCode
