import RegisterAllocation.Allocation.Check
import RegisterAllocation.Allocation.Listing
import RegisterAllocation.Assignment.Basic
import RegisterAllocation.Fixture.Basic

/-!
# Running fixtures

Running a fixture allocates its unit, schedules its moves and checks both results. The output is the
listing of the allocated unit followed by the scheduled moves. A unit that is rejected is reported
in the output, so that a fixture can expect that.
-/

namespace RegisterAllocation

/-- What running a fixture gives. -/
structure RunResult where
  output : String
  /-- The assignment of the unit, if it was allocated. -/
  assignment : Option Assignment := none
deriving Repr

/-- How running a fixture ends without a result. -/
inductive RunFailure where
  /-- A result did not pass its check; the text tells why. -/
  | incorrect (text : String)
  | failure (failure : Failure)
deriving DecidableEq, Repr

namespace RunFailure

/-- Passes a computation that can only break a contract into a run. -/
def lift {α : Type} (result : Except Fault α) : Except RunFailure α :=
  result.mapError fun fault => .failure (.fault fault)

end RunFailure

namespace CheckFailure

/-- The text of a defect in the allocation of the unit with the given name; a check that could not
be carried out has none. -/
def describe (unit : String) : CheckFailure → Except Failure String
  | .defect cause => Failure.lift (cause.message unit)
  | .failure cause => .error cause

end CheckFailure

namespace Fixture

/-- Allocates a unit, checks the allocation and lists it. -/
def runUnit (u : CodeUnit) (config : Config) : Except RunFailure RunResult :=
  match u.allocate config with
  | .error (.rejected _ cause) => .ok { output := "error: " ++ cause.message ++ "\n" }
  | .error failure => .error (.failure failure)
  | .ok allocation => do
    let allocator : Allocator := { config, allocation := some allocation }
    match allocator.check u with
    | .error failure =>
      match failure.describe u.name with
      | .ok text => .error (.incorrect text)
      | .error cause => .error (.failure cause)
    | .ok () =>
      let output ← RunFailure.lift (allocator.listing u)
      let assignment ← RunFailure.lift (allocator.assignment u)
      return { output, assignment := some assignment }

/-- The first register above all moves, with room for wide ones. -/
def firstTemporary (moves : List Move) : Register :=
  moves.foldl (fun highest move =>
    max (max highest (move.target + 2)) ((move.sourceRegister?.getD noRegister) + 2)) 0

/-- Schedules moves, checks the schedule and lists it. -/
def runMoves (moves : List Move) : Except RunFailure String := do
  let temporary := firstTemporary moves
  let scheduler ← RunFailure.lift (Scheduler.addAll { temporary } moves)
  let (scheduler, scheduled) := scheduler.schedule
  let scheduled ← RunFailure.lift scheduled
  match Move.wrongSlot? moves scheduled temporary with
  | some wrong => .error (.incorrect (← RunFailure.lift wrong.message))
  | none =>
    return "(scheduled temp " ++ Decimal.ofWord temporary ++ " used "
      ++ Decimal.ofWord scheduler.used
      ++ String.join (scheduled.map fun move => "\n  " ++ move.label) ++ ")\n"

/-- Runs a fixture. -/
def run (fixture : Fixture) : Except RunFailure RunResult := do
  let result ← match fixture.unit with
    | some u => runUnit u fixture.config
    | none => pure { output := "" }
  if fixture.moves.isEmpty then return result
  return { result with output := result.output ++ (← runMoves fixture.moves) }

end Fixture
end RegisterAllocation
