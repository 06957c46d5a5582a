import RegisterAllocation.Code.Pool

/-!
# Moves

A move fills the slots of its destination from a source register, or with a constant. The register
number `-1` is no register: a move from it is a constant move without a constant, which can be
collected and compared but neither printed nor carried out.
-/

namespace RegisterAllocation

/-- Where a move takes its contents from. -/
inductive Source where
  | register (register : Register)
  | constant (constant : Constant)
  /-- A constant move whose constant is missing. -/
  | missing
deriving DecidableEq, Repr

/-- A move into a register. -/
structure Move where
  target : Register
  source : Source
  type : MoveType
deriving DecidableEq, Repr

namespace Move

/-- The move from one register to another. -/
def ofRegisters (target source : Register) (type : MoveType) : Move :=
  ⟨target, if source = noRegister then .missing else .register source, type⟩

/-- The move of a constant into a register; there has to be one. -/
def ofConstant (target : Register) (constant : Option Constant) (type : MoveType) :
    Except Fault Move :=
  match constant with
  | some constant => .ok ⟨target, .constant constant, type⟩
  | none => .error .constantWithoutDefinition

def sourceRegister? (move : Move) : Option Register :=
  match move.source with
  | .register register => some register
  | _ => none

def written (move : Move) : List Register := move.type.footprint move.target

def slotsRead (move : Move) : List Register :=
  match move.source with
  | .register register => move.type.footprint register
  | _ => []

def writes (move : Move) (slot : Register) : Bool := move.written.contains slot

/-- Whether two moves write a slot in common. -/
def targetsMeet (move other : Move) : Bool := move.written.any other.writes

def sourceText : Source → Except Fault String
  | .register register => .ok (Decimal.ofWord register)
  | .constant constant => constant.text
  | .missing => .error .undefined

def text (move : Move) : Except Fault String := do
  return Decimal.ofWord move.target ++ " <- " ++ (← sourceText move.source) ++ " " ++ move.type.name

/-- What messages show for a move that has no text. -/
def noText : String :=
  "%!s(PANIC=String method: runtime error: invalid memory address or nil pointer dereference)"

def label (move : Move) : String :=
  match move.text with
  | .ok text => text
  | .error _ => noText

end Move
end RegisterAllocation
