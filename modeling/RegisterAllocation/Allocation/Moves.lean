import RegisterAllocation.Allocation.Scan

/-!
# Moves of an allocation

Copies are added to the moves that the scan has made. A copy reads its source just before its
position, so that the source may end there and give its register to the target. The moves of each
position are then scheduled, with temporaries above every register in use.
-/

namespace RegisterAllocation
namespace Allocation

/-- The move that a copy needs, none if source and target share a register. `written` are the
targets of the copies so far. -/
def copyMove? (u : CodeUnit) (pieces : List Piece) (written : List (Position × ValueId))
    (copy : Copy) : Except Failure (Option Move) := do
  let source := u.value copy.source
  let target := u.value copy.target
  if !target.liveAt copy.position then
    .error (.rejected u.name (.targetNotLive copy.position target.label))
  if source.type.width ≠ target.type.width then
    .error (.rejected u.name (.widthsDiffer copy.position source.label target.label))
  if written.contains (copy.position, copy.target) then
    .error (.rejected u.name (.writtenTwice copy.position target.label))
  let register ← registerAt u pieces copy.target copy.position
  if ← Failure.lift (u.pool.needsRegister copy.source) then
    if !source.liveAt (copy.position - 1) then
      .error (.rejected u.name (.sourceNotLive copy.position source.label))
    let origin ← registerAt u pieces copy.source (copy.position - 1)
    return if origin = register then none else some (.ofRegisters register origin target.type)
  else
    return some (← Failure.lift
      (Move.ofConstant register (u.pool.constant? copy.source) target.type))

/-- Adds the moves of copies. -/
def addCopies (u : CodeUnit) (pieces : List Piece) (written : List (Position × ValueId))
    (moves : MoveTable) : List Copy → Except Failure MoveTable
  | [] => .ok moves
  | copy :: copies => do
    let move ← copyMove? u pieces written copy
    addCopies u pieces ((copy.position, copy.target) :: written)
      (match move with
        | none => moves
        | some move => moves.add copy.position move) copies

/-- The first register above all pieces. -/
def firstTemporary (u : CodeUnit) (pieces : List Piece) : Register :=
  pieces.foldl (fun highest piece => max highest (piece.register + u.pool.width piece.value)) 0

/-- Schedules the moves of one position; also gives the number of temporaries. -/
def scheduleSet (temporary : Register) (position : Position) (moves : List Move) :
    Except Fault (MoveSet × Int64) := do
  let scheduler ← Scheduler.addAll { temporary } moves
  let (scheduler, scheduled) := scheduler.schedule
  return ({ position, moves, scheduled := ← scheduled }, scheduler.used)

/-- Schedules the moves of all positions; also gives the registers used, which were `used`
before. -/
def scheduleSets (temporary : Register) (used : Int64) :
    MoveTable → Except Fault (List MoveSet × Int64)
  | [] => .ok ([], used)
  | (position, moves) :: table => do
    let (set, temporaries) ← scheduleSet temporary position moves
    let (sets, used) ← scheduleSets temporary (max used (temporary + temporaries)) table
    return (set :: sets, used)

/-- Checks that every value that needs a register has an interval. -/
def checkIntervals (u : CodeUnit) : List ValueId → Except Failure Unit
  | [] => .ok ()
  | v :: vs => do
    if (← Failure.lift (u.pool.needsRegister v)) ∧ (u.value v).hasInterval = false then
      .error (.rejected u.name (.noInterval (u.label v)))
    checkIntervals u vs

end Allocation

/-- Allocates the registers of a unit. -/
def CodeUnit.allocate (u : CodeUnit) (config : Config) : Except Failure Allocation := do
  Allocation.checkIntervals u u.values
  let reserved ← Reserved.ofUnit u config
  let scan ← Scan.ofUnit u config reserved
  let pieces := Reserved.latest reserved.pieces ++ scan.ended ++ scan.active
  let moves ← Allocation.addCopies u pieces [] scan.moves u.copies
  let temporary := Allocation.firstTemporary u pieces
  let (moveSets, registersUsed) ← Failure.lift (Allocation.scheduleSets temporary temporary moves)
  if config.maxRegisters < registersUsed then
    .error (.rejected u.name (.tooManyRegisters registersUsed config.maxRegisters))
  return { pieces, moveSets, temporary, registersUsed }

end RegisterAllocation
