import RegisterAllocation.Allocation.Query
import RegisterAllocation.Text.Quoted

/-!
# Assignments

An assignment is the result of allocating a unit as a record for the encoder: which registers the
values have, and the moves at each position.
-/

namespace RegisterAllocation

/-- A register held from `start` up to but not including `stop`. -/
structure LiveRegister where
  start : Position := 0
  stop : Position := 0
  register : Register := 0
deriving DecidableEq, Repr

/-- The registers of a value. A record may lack the list. -/
structure ValueRegisters where
  value : Int64 := 0
  type : String := ""
  registers : Option (List LiveRegister) := none
deriving DecidableEq, Repr

/-- A move. Moves of constants come from the register `-1` and have the text of the constant. -/
structure MoveRecord where
  target : Register := 0
  source : Register := 0
  type : String := ""
  constant : String := ""
deriving DecidableEq, Repr

/-- The moves before the instruction at a position, in order. A record may lack the list. -/
structure MoveList where
  position : Position := 0
  moves : Option (List MoveRecord) := none
deriving DecidableEq, Repr

/-- The result of allocating a unit. A record may lack the lists. -/
structure Assignment where
  unit : String := ""
  registersUsed : Int64 := 0
  values : Option (List ValueRegisters) := none
  moves : Option (List MoveList) := none
deriving DecidableEq, Repr

/-- Why an assignment is refused. -/
inductive AssignmentError where
  | valueType (value : Int64) (type : String)
  | moveType (position : Position) (type : String)
deriving DecidableEq, Repr

namespace AssignmentError

/-- The text of an error in an assignment. -/
def message : AssignmentError → String
  | valueType value type =>
    "value " ++ Decimal.ofWord value ++ " has unknown type " ++ Quoted.string type
  | moveType position type =>
    "move at " ++ Decimal.ofWord position ++ " has unknown type " ++ Quoted.string type

end AssignmentError

namespace MoveRecord

/-- The record of a move. -/
def ofMove (move : Move) : Except Fault MoveRecord :=
  match move.source with
  | .register register => .ok ⟨move.target, register, move.type.name, ""⟩
  | .constant constant => do
    return ⟨move.target, noRegister, move.type.name, ← constant.text⟩
  | .missing => .error .undefined

end MoveRecord

/-- A list as it is collected: it is missing as long as nothing was added. -/
def nonempty? {α : Type} : List α → Option (List α)
  | [] => none
  | xs => some xs

namespace MoveList

/-- The record of the moves at a position. -/
def ofSet (set : MoveSet) : Except Fault MoveList := do
  let moves ← set.scheduled.mapM MoveRecord.ofMove
  return { position := set.position, moves := nonempty? moves }

end MoveList

namespace ValueRegisters

/-- The records of those of the values `vs` that need registers. -/
def ofValues (u : CodeUnit) (pieces : List Piece) :
    List ValueId → Except Fault (List ValueRegisters)
  | [] => .ok []
  | v :: vs => do
    if ← u.pool.needsRegister v then
      let own := (Piece.ofValue pieces v).map fun piece =>
        (⟨piece.start, piece.stop, piece.register⟩ : LiveRegister)
      let record : ValueRegisters :=
        ⟨(u.value v).number, (u.value v).type.name, some own⟩
      return record :: (← ofValues u pieces vs)
    else ofValues u pieces vs

end ValueRegisters

namespace Assignment

/-- Checks that all types are known. -/
def check (assignment : Assignment) : Except AssignmentError Unit := do
  (assignment.values.getD []).forM fun value =>
    if (MoveType.ofName? value.type).isNone then .error (.valueType value.value value.type)
    else .ok ()
  (assignment.moves.getD []).forM fun list =>
    (list.moves.getD []).forM fun move =>
      if (MoveType.ofName? move.type).isNone then .error (.moveType list.position move.type)
      else .ok ()

end Assignment

/-- The assignment of an allocated unit. -/
def Allocator.assignment (allocator : Allocator) (u : CodeUnit) : Except Fault Assignment := do
  let allocation ← allocator.get u
  let values ← ValueRegisters.ofValues u allocation.pieces u.values
  let moves ← allocation.moveSets.mapM MoveList.ofSet
  return {
    unit := u.name
    registersUsed := allocation.registersUsed
    values := nonempty? values
    moves := nonempty? moves }

end RegisterAllocation
