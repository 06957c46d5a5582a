import RegisterAllocation.Code.Unit

/-!
# Operands

Once values have registers, an instruction is written with a register or a literal in place of each
value. A `Placement` is any way to give registers to values; two instructions have the same encoding
under a placement if nothing tells them apart any more.
-/

namespace RegisterAllocation

/-- Gives the register of a value at a position. -/
abbrev Placement := ValueId → Position → Except Fault Register

/-- What stands for a value in an encoded instruction. -/
inductive Operand where
  | register (register : Register)
  | literal (literal : Literal)
deriving DecidableEq, Repr

namespace Operand

def text : Operand → String
  | register number => "r" ++ Decimal.ofWord number
  | literal constant => "'" ++ constant.text

end Operand

namespace Pool

/-- The operand for a value in the instruction numbered `number`. A value that needs no register is
a constant, and has to have a literal. -/
def operand (pool : Pool) (placement : Placement) (number : Int64) (v : ValueId) :
    Except Fault Operand := do
  if ← pool.needsRegister v then return .register (← placement v number)
  else match (pool.constant? v).bind (·.literal) with
    | some literal => return .literal literal
    | none => .error .undefined

/-- The text of the output of an instruction; `()` if there is none or it needs no register. -/
def outText (pool : Pool) (placement : Placement) (number : Int64) :
    Option ValueId → Except Fault String
  | none => .ok "()"
  | some v => do
    if ← pool.needsRegister v then return (← pool.operand placement number v).text
    else return "()"

/-- An instruction with its operands in place of its values. -/
def encodedText (pool : Pool) (placement : Placement) (i : InstrId) : Except Fault String := do
  let instr := pool.instr i
  let out ← pool.outText placement instr.number instr.out
  let inputs ← instr.inputs.mapM (pool.operand placement instr.number)
  return "(" ++ instr.opcodeName ++ " " ++ out
    ++ (match instr.literal with
      | some literal => " '" ++ literal.text
      | none => "")
    ++ (if instr.method = "" then "" else " " ++ instr.method)
    ++ String.join (inputs.map (" " ++ ·.text))
    ++ ")"

/-! ## Equal encodings -/

/-- Whether two values, in the instructions with the given numbers, have the same operand and type.
Literals are compared as constants. -/
def sameOperand (pool : Pool) (placement : Placement) (number : Int64) (v : ValueId)
    (number' : Int64) (v' : ValueId) : Except Fault Bool := do
  if (pool.value v).type ≠ (pool.value v').type then return false
  let needed ← pool.needsRegister v
  let needed' ← pool.needsRegister v'
  if needed ≠ needed' then return false
  if needed then
    let register ← placement v number
    let register' ← placement v' number'
    return register = register'
  match (pool.value v).definition, (pool.value v').definition with
  | some i, some i' => return (pool.instr i).sameShape (pool.instr i')
  | _, _ => .error .undefined

/-- Whether the inputs of two instructions have the same operands. -/
def sameOperands (pool : Pool) (placement : Placement) (number number' : Int64) :
    List ValueId → List ValueId → Except Fault Bool
  | v :: vs, v' :: vs' => do
    if ← pool.sameOperand placement number v number' v' then
      pool.sameOperands placement number number' vs vs'
    else return false
  | _, _ => .ok true

/-- Whether the outputs of two instructions are the same operand, or both missing. -/
def sameOut (pool : Pool) (placement : Placement) (number number' : Int64) :
    Option ValueId → Option ValueId → Except Fault Bool
  | some v, some v' => pool.sameOperand placement number v number' v'
  | none, none => .ok true
  | _, _ => .ok false

/-- Whether two instructions are encoded in the same way. -/
def sameEncoding (pool : Pool) (placement : Placement) (i j : InstrId) : Except Fault Bool := do
  let x := pool.instr i
  let y := pool.instr j
  if !x.sameShape y then return false
  if !(← pool.sameOut placement x.number y.number x.out y.out) then return false
  if x.inputs.length ≠ y.inputs.length then return false
  pool.sameOperands placement x.number y.number x.inputs y.inputs

end Pool
end RegisterAllocation
