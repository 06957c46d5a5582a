import RegisterAllocation.Allocation.Query
import RegisterAllocation.Move.RegisterFile

/-!
# Checking an allocation

`Allocation.check` tests a finished allocation against its unit:

* every value that needs a register has one throughout its interval;
* no two pieces share a slot at the same time;
* arguments, pinned values and ranges are in their places;
* the moves at each position have their parallel meaning, and leave every value that changes its
  register there, and every copied value, where it should be.
-/

namespace RegisterAllocation

/-- What is wrong with the moves at a position. -/
inductive MoveDefect where
  /-- The schedule does not have the meaning of the moves. -/
  | schedule (wrong : WrongSlot)
  /-- A value has not arrived in its register. -/
  | arrival (value : String) (wrong : WrongSlot)
deriving DecidableEq, Repr

/-- What is wrong with an allocation. -/
inductive Defect where
  | uncovered (value : String) (position : Position)
  | shared (first second : String)
  | argumentElsewhere (argument : String) (register arrival : Register)
  | notFixed (piece : String)
  | rangeBroken (instr : Int64) (value : String)
  | moves (position : Position) (defect : MoveDefect)
deriving DecidableEq, Repr

namespace MoveDefect

def message : MoveDefect → Except Fault String
  | schedule wrong => wrong.message
  | arrival value wrong => do return value ++ ": " ++ (← wrong.message)

end MoveDefect

namespace Defect

/-- The text of a defect of an allocation for the unit with the given name. -/
def message (unit : String) : Defect → Except Fault String
  | uncovered value position =>
    .ok (unit ++ ": " ++ value ++ " has no register at " ++ Decimal.ofWord position)
  | shared first second =>
    .ok (unit ++ ": " ++ first ++ " and " ++ second ++ " share a register")
  | argumentElsewhere argument register arrival =>
    .ok (unit ++ ": argument " ++ argument ++ " is in r" ++ Decimal.ofWord register ++ ", not r"
      ++ Decimal.ofWord arrival)
  | notFixed piece => .ok (unit ++ ": " ++ piece ++ " is not in its fixed register")
  | rangeBroken instr value =>
    .ok (unit ++ ": range of instruction " ++ Decimal.ofWord instr ++ " is not contiguous at "
      ++ value)
  | moves position defect => do
    return unit ++ ": moves at " ++ Decimal.ofWord position ++ ": " ++ (← defect.message)

end Defect

/-- How a check ends without success: it finds a defect, or it cannot be carried out. -/
inductive CheckFailure where
  | defect (defect : Defect)
  | failure (failure : Failure)
deriving DecidableEq, Repr

namespace CheckFailure

/-- Passes a computation that can only break a contract into a check. -/
def lift {α : Type} (result : Except Fault α) : Except CheckFailure α :=
  result.mapError fun fault => .failure (.fault fault)

end CheckFailure

namespace Allocation

/-! ## Coverage -/

/-- The position up to which consecutive pieces cover a value from `position` on; the first position
that is not covered if they leave a gap. -/
def coveredUpTo (position : Position) : List Piece → Except Position Position
  | [] => .ok position
  | piece :: pieces =>
    if piece.start = position then coveredUpTo piece.stop pieces else .error position

/-- Checks that pieces cover the interval of a value from end to end. -/
def checkCoverage (u : CodeUnit) (v : ValueId) (pieces : List Piece) : Except Defect Unit :=
  match coveredUpTo (u.value v).start pieces with
  | .error position => .error (.uncovered (u.label v) position)
  | .ok position =>
    if position = (u.value v).stop then .ok () else .error (.uncovered (u.label v) position)

/-- Checks the coverage of all values that need registers and gives their pieces. -/
def checkValues (u : CodeUnit) (pieces : List Piece) :
    List ValueId → Except CheckFailure (List Piece)
  | [] => .ok []
  | v :: vs => do
    if ← CheckFailure.lift (u.pool.needsRegister v) then
      let own := Piece.ofValue pieces v
      (checkCoverage u v own).mapError .defect
      return own ++ (← checkValues u pieces vs)
    else checkValues u pieces vs

/-! ## Sharing -/

/-- The first of the pieces after `piece`, up to one that starts when it has ended, that shares a
slot with it. -/
def sharer? (pool : Pool) (piece : Piece) : List Piece → Option Piece
  | [] => none
  | other :: rest =>
    if piece.stop ≤ other.start then none
    else if (pool.value piece.value).type.footprintsMeet piece.register
        (pool.value other.value).type other.register then some other
    else sharer? pool piece rest

/-- Checks that no two pieces share a slot at the same time. The pieces are in the order of
starts. -/
def checkSharing (pool : Pool) : List Piece → Except Defect Unit
  | [] => .ok ()
  | piece :: rest =>
    match sharer? pool piece rest with
    | some other => .error (.shared (piece.text pool) (other.text pool))
    | none => checkSharing pool rest

/-- The pieces in the order of starts. -/
def byStart (pieces : List Piece) : List Piece := stableSortByKey Piece.start pieces

/-! ## Fixed registers -/

/-- Checks that arguments are in consecutive registers from `register` on. -/
def checkArguments (u : CodeUnit) (placement : Placement) (register : Register) :
    List ValueId → Except CheckFailure Unit
  | [] => .ok ()
  | v :: vs => do
    let found ← CheckFailure.lift (placement v (u.value v).start)
    if found ≠ register then .error (.defect (.argumentElsewhere (u.label v) found register))
    checkArguments u placement (register + u.pool.width v) vs

/-- Checks that pinned values are in their registers. -/
def checkPinned (u : CodeUnit) (pieces : List Piece) : List ValueId → Except CheckFailure Unit
  | [] => .ok ()
  | v :: vs => do
    if let some register := (u.value v).fixed then
      if ← CheckFailure.lift (u.pool.needsRegister v) then
        if let some piece := (Piece.ofValue pieces v).find? (·.register ≠ register) then
          .error (.defect (.notFixed (piece.text u.pool)))
    checkPinned u pieces vs

/-- Checks that inputs are in consecutive registers from `register` on. -/
def checkRow (u : CodeUnit) (placement : Placement) (number : Int64) (register : Register) :
    List ValueId → Except CheckFailure Unit
  | [] => .ok ()
  | v :: vs => do
    let found ← CheckFailure.lift (placement v number)
    if found ≠ register then .error (.defect (.rangeBroken number (u.label v)))
    checkRow u placement number (register + u.pool.width v) vs

/-- Checks the ranges among the given instructions. -/
def checkRanges (u : CodeUnit) (placement : Placement) : List InstrId → Except CheckFailure Unit
  | [] => .ok ()
  | i :: is => do
    let instr := u.instr i
    if instr.opcode = .invokeRange then
      if let first :: _ := instr.inputs then
        let register ← CheckFailure.lift (placement first instr.number)
        checkRow u placement instr.number register instr.inputs
    checkRanges u placement is

/-! ## Moves -/

/-- Where a value comes from: a register, or its constant. -/
inductive Origin where
  | register (register : Register)
  | constant (constant : Option Constant)
deriving DecidableEq, Repr

/-- Where a value comes from that has been in a register. The register number `-1` is no register:
it stands for the definition of the value, whatever that is. -/
def Origin.ofRegister (pool : Pool) (v : ValueId) (register : Register) : Origin :=
  if register = noRegister then .constant (pool.definition? v) else .register register

/-- What the slots of a value of the given type hold when it comes from `origin`. -/
def Origin.contents : Origin → MoveType → List Content
  | .register before, type => (type.footprint before).map .initial
  | .constant known, type => RegisterFile.constantSlots known type

/-- Checks that the slots of a value in the register `register` hold what came from `origin`. -/
def checkArrival (u : CodeUnit) (file : RegisterFile) (v : ValueId) (origin : Origin)
    (register : Register) : Except MoveDefect Unit :=
  let type := (u.value v).type
  match ((type.footprint register).zip (origin.contents type)).find? fun (slot, wanted) =>
      file.get slot ≠ wanted with
  | none => .ok ()
  | some (slot, wanted) => .error (.arrival (u.label v) ⟨slot, file.get slot, wanted⟩)

/-- Checks the pieces after the first one: those that start at a position must have received their
value there. -/
def checkChanges (u : CodeUnit) (file : RegisterFile) (position : Position) (v : ValueId) :
    List Piece → Except MoveDefect Unit
  | before :: after :: rest => do
    if after.start = position then
      let source := if u.pool.isConstant v then noRegister else before.register
      checkArrival u file v (.ofRegister u.pool v source) after.register
    checkChanges u file position v (after :: rest)
  | _ => .ok ()

/-- Checks that a copy has arrived. -/
def checkCopy (u : CodeUnit) (pieces : List Piece) (file : RegisterFile) (copy : Copy) :
    Except CheckFailure Unit := do
  let source ←
    if ← CheckFailure.lift (u.pool.needsRegister copy.source) then
      (registerAt u pieces copy.source (copy.position - 1)).mapError .failure
    else pure noRegister
  let register ← (registerAt u pieces copy.target copy.position).mapError .failure
  (checkArrival u file copy.source (.ofRegister u.pool copy.source source) register).mapError
    fun defect => .defect (.moves copy.position defect)

/-- Checks the moves at one position. -/
def checkMoves (u : CodeUnit) (pieces : List Piece) (temporary : Register) (set : MoveSet) :
    Except CheckFailure Unit := do
  if let some wrong := Move.wrongSlot? set.moves set.scheduled temporary then
    .error (.defect (.moves set.position (.schedule wrong)))
  let file := RegisterFile.initial.run set.scheduled
  u.values.forM fun v =>
    (checkChanges u file set.position v (Piece.ofValue pieces v)).mapError
      fun defect => .defect (.moves set.position defect)
  (u.copies.filter (·.position = set.position)).forM (checkCopy u pieces file)

end Allocation

namespace Allocator

/-- Checks the allocation of a unit. -/
def check (allocator : Allocator) (u : CodeUnit) : Except CheckFailure Unit := do
  let allocation ← CheckFailure.lift (allocator.get u)
  let pieces ← Allocation.checkValues u allocation.pieces u.values
  (Allocation.checkSharing u.pool (Allocation.byStart pieces)).mapError .defect
  let placement := allocator.placement u
  Allocation.checkArguments u placement 0 u.arguments
  Allocation.checkPinned u allocation.pieces u.values
  Allocation.checkRanges u placement u.instrs
  allocation.moveSets.forM (Allocation.checkMoves u allocation.pieces allocation.temporary)

end Allocator
end RegisterAllocation
