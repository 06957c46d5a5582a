import RegisterAllocation.Code.Opcode
import RegisterAllocation.Literal.Basic

/-!
# Values and instructions

A value is defined at most once and lives over an interval of positions, from `start` up to but not
including `stop`. Values and instructions refer to each other by the order in which they were made.
-/

namespace RegisterAllocation

/-- Refers to a value of a pool. -/
abbrev ValueId := Nat

/-- Refers to an instruction of a pool. -/
abbrev InstrId := Nat

/-- A value and what is known about it. -/
structure Value where
  number : Int64
  name : String
  type : MoveType
  /-- The first position of the live interval. -/
  start : Position := 0
  /-- The position after the live interval. -/
  stop : Position := 0
  /-- The register that the value has to be in. -/
  fixed : Option Register := none
  isArgument : Bool := false
  /-- The instruction with this output. -/
  definition : Option InstrId := none
  /-- The instructions with this input, each once, in the order in which they were made. -/
  uses : List InstrId := []
deriving DecidableEq, Repr, Inhabited

namespace Value

def label (value : Value) : String :=
  if value.name = "" then "v" ++ Decimal.ofWord value.number
  else value.name ++ "_" ++ Decimal.ofWord value.number

/-- Whether the interval has been computed. An interval without positions counts as not computed. -/
def hasInterval (value : Value) : Bool := value.start < value.stop

/-- Sets the interval, which must not be empty. -/
def setInterval (value : Value) (start stop : Position) : Except Fault Value :=
  if stop ≤ start then .error (.emptyInterval value.label start stop)
  else .ok { value with start, stop }

/-- Whether the value is live at a position. -/
def liveAt (value : Value) (position : Position) : Bool :=
  value.start ≤ position && position < value.stop

def overlaps (value other : Value) : Bool :=
  value.start < other.stop && other.start < value.stop

def addUse (value : Value) (instr : InstrId) : Value :=
  if value.uses.contains instr then value else { value with uses := value.uses ++ [instr] }

end Value

/-- An instruction. Numbers give the linear order. -/
structure Instruction where
  number : Int64
  opcode : Opcode
  /-- The operand type of arithmetic. -/
  numeric : Option NumericType := none
  /-- The constant of a `const`. -/
  literal : Option Literal := none
  /-- The method of an `invoke`. -/
  method : String := ""
  out : Option ValueId := none
  inputs : List ValueId := []
deriving DecidableEq, Repr, Inhabited

namespace Instruction

/-- The name of the operation with its operand type, such as `add-int`. -/
def opcodeName (instr : Instruction) : String :=
  match instr.numeric with
  | none => instr.opcode.name
  | some type => instr.opcode.name ++ "-" ++ type.name

/-- Whether two instructions agree in everything but their values. -/
def sameShape (instr other : Instruction) : Bool :=
  instr.opcode = other.opcode && instr.numeric = other.numeric && instr.method = other.method &&
  match instr.literal, other.literal with
  | none, none => true
  | some x, some y => x.same y
  | _, _ => false

/-- The bits of a literal operand. Shifts have room for fewer. -/
def literalBits (instr : Instruction) : Int64 :=
  match instr.opcode with
  | .shl | .shr => 8
  | _ => 16

end Instruction

/-- A value copy where control flow merges: at `position` the value `target` receives what `source`
held just before. -/
structure Copy where
  position : Position
  source : ValueId
  target : ValueId
deriving DecidableEq, Repr

end RegisterAllocation
