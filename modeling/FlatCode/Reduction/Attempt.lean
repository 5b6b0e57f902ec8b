import FlatCode.Reduction.Oracle
import FlatCode.Reduction.Log

/-!
# Attempts

An attempt removes some instructions of a program if an oracle accepts the program without them. The
oracle is asked about a candidate; only when it accepts are the same instructions removed from the
program itself. A rejected attempt, and one in which the oracle fails, leave the program to what the
oracle made of it. An oracle that shortens the program can have an edit refused when its verdict is
carried out: the edits before that one stay.

An attempt counts when the oracle has been asked; instructions that are removed already are not
asked about, and nothing left to ask about is no attempt.
-/

namespace FlatCode

/-- Why an attempt or a reduction stops. -/
inductive ReductionError (ε : Type) where
  /-- A listed index selects no instruction. -/
  | noSuchItem
  /-- An edit is refused. -/
  | edit (error : EditError)
  /-- The markers of the program do not fit together. -/
  | structural (error : StructureError)
  /-- Less than one round is asked for. -/
  | tooFewRounds
  /-- The oracle fails. -/
  | oracle (error : ε)
  deriving DecidableEq, Repr

/-- The wording of an error, given that of the oracle's errors. -/
def ReductionError.message {ε : Type} (ofOracle : ε → Text) : ReductionError ε → Text
  | .noSuchItem => StructureError.noSuchItem.message
  | .edit error => error.message
  | .structural error => error.message
  | .tooFewRounds => "max_rounds must be at least 1"
  | .oracle error => ofOracle error

/-- The state of a reduction. -/
structure Run (σ : Type) where
  /-- The program that is being reduced. -/
  program : Program
  /-- The state of the oracle. -/
  state : σ
  /-- How often the oracle was asked. -/
  attempts : Nat := 0
  /-- How often it accepted. -/
  accepted : Nat := 0
  /-- What happened, in order. -/
  log : List LogEntry := []

variable {σ ε : Type}

/-- The run with one more entry in its log. -/
def Run.note (run : Run σ) (entry : LogEntry) : Run σ := { run with log := run.log ++ [entry] }

/-- A step of a reduction: its answer and the run after it, also when it fails. -/
abbrev Step (σ ε α : Type) := Run σ → Except (ReductionError ε) α × Run σ

/-- The listed indices that select an instruction that still does something; none if an index
selects nothing. Negative indices count from the end. -/
def Program.remaining? (program : Program) : List Int → Option (List Int)
  | [] => some []
  | idx :: rest =>
    match program.at? idx with
    | none => none
    | some instr =>
      (program.remaining? rest).map fun later => if instr.isNop then later else idx :: later

/-- Removes the listed instructions if the oracle accepts; answers whether they were removed. -/
def attempt (oracle : Oracle σ ε) (indices : List Int) : Step σ ε Bool := fun run =>
  match run.program.remaining? indices with
  | none => (.error .noSuchItem, run)
  | some [] => (.ok false, run)
  | some (idx :: rest) =>
    let targets := idx :: rest
    match run.program.nopAll targets with
    | .error e => (.error (.edit e), run)
    | .ok candidate =>
      let (answer, state, program) := oracle.judge candidate run.state run.program
      let asked := { run with program, state, attempts := run.attempts + 1 }
      match answer with
      | .error e => (.error (.oracle e), asked)
      | .ok false => (.ok false, asked.note (.rejected targets))
      | .ok true =>
        match asked.program.nopAll targets with
        | .error e =>
          (.error (.edit e), { asked with program := asked.program.nopUntilRefused targets })
        | .ok program =>
          (.ok true,
            { asked with program, accepted := asked.accepted + 1 }.note (.committed targets))

/-- Removes one instruction if the oracle accepts. -/
def attemptOne (oracle : Oracle σ ε) (idx : Int) : Step σ ε Bool := attempt oracle [idx]

end FlatCode
