import FlatCode.Block.Error

/-!
# The log of a reduction

What happens during a reduction is recorded as entries in the order of their happening. How an entry
is shown, and at which level, is decided here.
-/

namespace FlatCode

/-- How important an entry is. -/
inductive LogLevel where
  | debug
  | info
  deriving DecidableEq, Repr

/-- How a level is shown. -/
def LogLevel.name : LogLevel → String
  | .debug => "DEBUG"
  | .info => "INFO"

/-- What happened. -/
inductive LogEntry where
  /-- The removal of some instructions was rejected. -/
  | rejected (indices : List Int)
  /-- The removal of some instructions was committed. -/
  | committed (indices : List Int)
  /-- A reducer starts in a round. -/
  | started (round : Nat) (reducer : String)
  /-- A round is over, with the number of its accepted edits and of the instructions left. -/
  | finished (round accepted left : Nat)
  deriving DecidableEq, Repr

namespace LogEntry

/-- The level of an entry. -/
def level : LogEntry → LogLevel
  | .finished .. => .info
  | _ => .debug

/-- The part of the program that an entry comes from. -/
def source : LogEntry → String
  | .rejected _ | .committed _ => "fuzzblocks.il.verifier"
  | .started .. | .finished .. => "fuzzblocks.il.reducer"

/-- The wording of an entry. -/
def message : LogEntry → String
  | .rejected indices => "Rejected nop of " ++ StructureError.showIndices indices
  | .committed indices => "Committed nop of " ++ StructureError.showIndices indices
  | .started round reducer => s!"Round {round}: running {reducer} reducer"
  | .finished round accepted left =>
    s!"Round {round}: {accepted} edit(s) accepted, {left} instruction(s) left"

/-- The line of an entry: level, source and wording. -/
def line (entry : LogEntry) : String := s!"{entry.level.name} {entry.source}: {entry.message}"

end LogEntry

end FlatCode
