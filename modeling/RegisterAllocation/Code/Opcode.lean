import RegisterAllocation.MoveType

/-!
# Operations

The operations that matter to register allocation, and the operand types of arithmetic.
-/

namespace RegisterAllocation

/-- What an instruction does. -/
inductive Opcode where
  | const
  | move
  | add
  | sub
  | mul
  | div
  | rem
  | and
  | or
  | xor
  | shl
  | shr
  | invoke
  | invokeRange
  | ret
deriving DecidableEq, Repr, Inhabited

namespace Opcode

/-- The operations in the order of their codes. -/
def all : List Opcode :=
  [const, move, add, sub, mul, div, rem, and, or, xor, shl, shr, invoke, invokeRange, ret]

/-- The name of an operation. -/
def name : Opcode → String
  | const => "const"
  | move => "move"
  | add => "add"
  | sub => "sub"
  | mul => "mul"
  | div => "div"
  | rem => "rem"
  | and => "and"
  | or => "or"
  | xor => "xor"
  | shl => "shl"
  | shr => "shr"
  | invoke => "invoke"
  | invokeRange => "invoke-range"
  | ret => "return"

def isBinop : Opcode → Bool
  | const | move | invoke | invokeRange | ret => false
  | _ => true

/-- Whether the operation does more than compute its output. Divisions may fail. -/
def hasSideEffects : Opcode → Bool
  | div | rem | invoke | invokeRange | ret => true
  | _ => false

def code (opcode : Opcode) : Nat := all.idxOf opcode

def ofName? (name : String) : Option Opcode := all.find? (·.name = name)

/-- The operation with the given code. -/
def ofCode (code : Int64) : Except Fault Opcode :=
  if code < 0 then .error .undefined
  else match all[code.toInt.toNat]? with
    | some opcode => .ok opcode
    | none => .error .undefined

end Opcode

/-- The operand type of arithmetic. -/
inductive NumericType where
  | int
  | long
  | float
  | double
deriving DecidableEq, Repr

namespace NumericType

/-- The operand types in the order of their codes, which start at one. -/
def all : List NumericType := [int, long, float, double]

/-- The name of an operand type. -/
def name : NumericType → String
  | int => "int"
  | long => "long"
  | float => "float"
  | double => "double"

/-- The width class of values of an operand type. -/
def moveType : NumericType → MoveType
  | long | double => .wide
  | int | float => .single

def ofName? (name : String) : Option NumericType := all.find? (·.name = name)

def code (type : NumericType) : Nat := all.idxOf type + 1

/-- The operand type with the given code; the code zero stands for none. -/
def ofCode (code : Int64) : Except Fault (Option NumericType) :=
  if code = 0 then .ok none
  else if code < 0 then .error .undefined
  else match all[code.toInt.toNat - 1]? with
    | some type => .ok (some type)
    | none => .error .undefined

end NumericType
end RegisterAllocation
