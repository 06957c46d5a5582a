import RegisterAllocation.Code.Unit
import RegisterAllocation.Move.Schedule
import RegisterAllocation.Config

/-!
# Allocations

An allocation gives every value that needs a register one or more pieces: a register for a part of
the value's live interval. Where a value changes its register, and where copies happen, there are
moves, which are carried out before the instruction at that position.
-/

namespace RegisterAllocation

/-- A register held by a value from `start` up to but not including `stop`. -/
structure Piece where
  value : ValueId
  start : Position
  stop : Position
  register : Register
deriving DecidableEq, Repr

/-- The moves at one position, all of which read the registers as they were before it, and the order
in which they are carried out. -/
structure MoveSet where
  position : Position
  moves : List Move
  scheduled : List Move
deriving DecidableEq, Repr

/-- The result of allocating a unit. -/
structure Allocation where
  /-- The pieces of all values; those of one value are in order of position. -/
  pieces : List Piece
  /-- The move sets in ascending order of position. -/
  moveSets : List MoveSet
  /-- The first temporary, which is above every piece. -/
  temporary : Register
  /-- The registers needed, with the temporaries. -/
  registersUsed : Int64
deriving DecidableEq, Repr

/-- Why a unit cannot be allocated. -/
inductive Rejection where
  | noInterval (value : String)
  | badFixedRegister (value : String) (register : Register)
  | fixedTwice (first second : String) (slot : Register)
  | argumentElsewhere (argument : String) (fixed arrival : Register)
  | twiceInRange (value : String) (instr : Int64)
  | inTwoRanges (value : String) (first second : Int64)
  | fixedInRange (value : String) (instr : Int64)
  | rangeTooWide (instr width registers : Int64)
  | noRange (instr : Int64)
  | outOfRegisters (value : String) (position : Position)
  | targetNotLive (position : Position) (target : String)
  | widthsDiffer (position : Position) (source target : String)
  | writtenTwice (position : Position) (target : String)
  | sourceNotLive (position : Position) (source : String)
  | noRegister (value : String) (position : Position)
  | tooManyRegisters (needed limit : Int64)
deriving DecidableEq, Repr

namespace Rejection

/-- The text of a rejection. -/
def message : Rejection → String
  | noInterval value => value ++ " has no live interval"
  | badFixedRegister value register =>
    value ++ " cannot be fixed to register " ++ Decimal.ofWord register
  | fixedTwice first second slot =>
    first ++ " and " ++ second ++ " are both fixed to register " ++ Decimal.ofWord slot
  | argumentElsewhere argument fixed arrival =>
    "argument " ++ argument ++ " is fixed to register " ++ Decimal.ofWord fixed
      ++ " but arrives in " ++ Decimal.ofWord arrival
  | twiceInRange value instr =>
    value ++ " appears twice in the range of instruction " ++ Decimal.ofWord instr
  | inTwoRanges value first second =>
    value ++ " is in the ranges of instructions " ++ Decimal.ofWord first ++ " and "
      ++ Decimal.ofWord second
  | fixedInRange value instr =>
    value ++ " in the range of instruction " ++ Decimal.ofWord instr
      ++ " already has a fixed register"
  | rangeTooWide instr width registers =>
    "range of instruction " ++ Decimal.ofWord instr ++ " needs " ++ Decimal.ofWord width
      ++ " registers, only " ++ Decimal.ofWord registers ++ " are available"
  | noRange instr => "no free register range for instruction " ++ Decimal.ofWord instr
  | outOfRegisters value position =>
    "out of registers for " ++ value ++ " at " ++ Decimal.ofWord position
  | targetNotLive position target =>
    "copy at " ++ Decimal.ofWord position ++ ": destination " ++ target ++ " is not live"
  | widthsDiffer position source target =>
    "copy at " ++ Decimal.ofWord position ++ ": " ++ source ++ " and " ++ target
      ++ " have different widths"
  | writtenTwice position target =>
    "copy at " ++ Decimal.ofWord position ++ ": " ++ target ++ " is written twice"
  | sourceNotLive position source =>
    "copy at " ++ Decimal.ofWord position ++ ": source " ++ source ++ " is not live"
  | noRegister value position =>
    value ++ " has no register at " ++ Decimal.ofWord position
  | tooManyRegisters needed limit =>
    "needs " ++ Decimal.ofWord needed ++ " registers, the limit is " ++ Decimal.ofWord limit

end Rejection

/-- How allocating ends without an allocation: the unit is rejected, or a contract is broken. -/
inductive Failure where
  | rejected (unit : String) (cause : Rejection)
  | fault (fault : Fault)
deriving DecidableEq, Repr

namespace Failure

/-- The text of a failure; some faults have none. -/
def message? : Failure → Option String
  | rejected unit cause => some ("internal error in " ++ unit ++ ": " ++ cause.message)
  | fault cause => cause.message?

/-- Passes a computation that can only break a contract into one that can also reject. -/
def lift {α : Type} (result : Except Fault α) : Except Failure α := result.mapError .fault

end Failure

namespace Piece

def covers (piece : Piece) (position : Position) : Bool :=
  piece.start ≤ position && position < piece.stop

def text (pool : Pool) (piece : Piece) : String :=
  pool.label piece.value ++ "[" ++ Decimal.ofWord piece.start ++ "," ++ Decimal.ofWord piece.stop
    ++ ")=r" ++ Decimal.ofWord piece.register

def usesSlot (pool : Pool) (piece : Piece) (slot : Register) : Bool :=
  piece.register ≤ slot && slot < piece.register + pool.width piece.value

def ofValue (pieces : List Piece) (v : ValueId) : List Piece := pieces.filter (·.value = v)

/-- The register of a value at a position. -/
def registerAt? (pieces : List Piece) (v : ValueId) (position : Position) : Option Register :=
  ((ofValue pieces v).find? (·.covers position)).map (·.register)

end Piece

namespace Allocation

/-- The register of a value at a position; a unit that asks for one where there is none is
rejected. -/
def registerAt (u : CodeUnit) (pieces : List Piece) (v : ValueId) (position : Position) :
    Except Failure Register :=
  match Piece.registerAt? pieces v position with
  | some register => .ok register
  | none => .error (.rejected u.name (.noRegister (u.label v) position))

end Allocation
end RegisterAllocation
