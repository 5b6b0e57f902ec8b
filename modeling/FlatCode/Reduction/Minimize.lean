import FlatCode.Reduction.Reducer

/-!
# Rounds

A reduction runs its reducers round after round until a round changes nothing or the bound on the
rounds is reached.

## Termination

`rounds` recurses on the number of rounds that may still be run.
-/

namespace FlatCode

variable {σ ε : Type}

/-- The rounds of a reduction that names no bound. -/
def standardRounds : Int := 10

/-- What a reduction did. -/
structure Outcome where
  rounds : Nat
  attempts : Nat
  accepted : Nat
  /-- How many instructions fewer do something. -/
  removed : Int
  deriving DecidableEq, Repr

/-- Runs the reducers of one round. -/
def runReducers (oracle : Oracle σ ε) (round : Nat) : List Reducer → Step σ ε Unit
  | [], run => (.ok (), run)
  | reducer :: rest, run =>
    match reducer.reduce oracle (run.note (.started round reducer.name)) with
    | (.error e, run) => (.error e, run)
    | (.ok (), run) => runReducers oracle round rest run

/-- Runs at most the given number of further rounds behind those that are done; answers how many
have been run in all. -/
def rounds (oracle : Oracle σ ε) (reducers : List Reducer) : Nat → Nat → Step σ ε Nat
  | 0, done, run => (.ok done, run)
  | further + 1, done, run =>
    match runReducers oracle (done + 1) reducers run with
    | (.error e, after) => (.error e, after)
    | (.ok (), after) =>
      let changed := after.accepted - run.accepted
      let after := after.note (.finished (done + 1) changed after.program.payload)
      if changed = 0 then (.ok (done + 1), after)
      else rounds oracle reducers further (done + 1) after

/-- Reduces the program of a run, in at most the given number of rounds. -/
def minimize (oracle : Oracle σ ε) (reducers : List Reducer) (maxRounds : Int) :
    Step σ ε Outcome := fun run =>
  if maxRounds < 1 then (.error .tooFewRounds, run)
  else
    match rounds oracle reducers maxRounds.toNat 0 run with
    | (.error e, after) => (.error e, after)
    | (.ok count, after) =>
      (.ok {
        rounds := count
        attempts := after.attempts - run.attempts
        accepted := after.accepted - run.accepted
        removed := run.program.payload - after.program.payload }, after)

end FlatCode
