import RegisterAllocation.Code.Value

/-!
# Pools of values and instructions

A pool holds every value and instruction that has been made, with the references between them: the
definition and the uses of each value.

A constant can often stand in its users as a literal. `Pool.needsRegister` tells the values that
have to be in a register.
-/

namespace RegisterAllocation

/-- All values and instructions made so far. -/
structure Pool where
  values : Array Value := #[]
  instrs : Array Instruction := #[]
deriving DecidableEq, Repr, Inhabited

/-- A constant as a move or a register sees it: which instruction makes it, and its literal. -/
structure Constant where
  definition : InstrId
  literal : Option Literal
deriving DecidableEq, Repr

/-- The text of a constant, which needs a literal. -/
def Constant.text (constant : Constant) : Except Fault String :=
  match constant.literal with
  | some literal => .ok literal.text
  | none => .error .undefined

namespace Pool

def empty : Pool := {}

def value (pool : Pool) (v : ValueId) : Value := pool.values.getD v default

def instr (pool : Pool) (i : InstrId) : Instruction := pool.instrs.getD i default

def label (pool : Pool) (v : ValueId) : String := (pool.value v).label

def width (pool : Pool) (v : ValueId) : Int64 := (pool.value v).type.width

/-! ## Making values and instructions -/

def addValue (pool : Pool) (value : Value) : ValueId × Pool :=
  (pool.values.size, { pool with values := pool.values.push value })

def modifyValue (pool : Pool) (v : ValueId) (change : Value → Value) : Pool :=
  { pool with values := pool.values.modify v change }

def setInterval (pool : Pool) (v : ValueId) (start stop : Position) : Except Fault Pool := do
  let changed ← (pool.value v).setInterval start stop
  return pool.modifyValue v fun _ => changed

/-- Records the instruction `i` as the definition of its output. -/
def setDefinition (pool : Pool) (i : InstrId) : Option ValueId → Except Fault Pool
  | none => .ok pool
  | some v =>
    match (pool.value v).definition with
    | some _ => .error (.redefined (pool.label v))
    | none => .ok (pool.modifyValue v fun value => { value with definition := some i })

/-- Adds an instruction, which becomes the definition of its output and a use of its inputs. An
output that has a definition already is refused. -/
def addInstr (pool : Pool) (instr : Instruction) : Except Fault (InstrId × Pool) := do
  let i := pool.instrs.size
  let defined ← pool.setDefinition i instr.out
  let used := instr.inputs.foldl (fun pool v => pool.modifyValue v (·.addUse i)) defined
  return (i, { used with instrs := pool.instrs.push instr })

def addConst (pool : Pool) (number : Int64) (out : Option ValueId) (literal : Option Literal) :
    Except Fault (InstrId × Pool) :=
  pool.addInstr { number, opcode := .const, literal, out }

/-- Adds an arithmetic instruction. -/
def addBinop (pool : Pool) (number : Int64) (opcode : Opcode) (numeric : Option NumericType)
    (out : Option ValueId) (left right : ValueId) : Except Fault (InstrId × Pool) :=
  if opcode.isBinop then
    pool.addInstr { number, opcode, numeric, out, inputs := [left, right] }
  else .error (.notBinop opcode.name)

/-- Adds an instruction that calls a method. -/
def addInvoke (pool : Pool) (number : Int64) (opcode : Opcode) (method : String)
    (out : Option ValueId) (inputs : List ValueId) : Except Fault (InstrId × Pool) :=
  if opcode = .invoke || opcode = .invokeRange then
    pool.addInstr { number, opcode, method, out, inputs }
  else .error (.notInvoke opcode.name)

/-! ## Constants and literals -/

def constant? (pool : Pool) (v : ValueId) : Option Constant := do
  let i ← (pool.value v).definition
  let instr := pool.instr i
  if instr.opcode = .const then some ⟨i, instr.literal⟩ else none

/-- The instruction that defines a value, taken for a constant. -/
def definition? (pool : Pool) (v : ValueId) : Option Constant :=
  (pool.value v).definition.map fun i => ⟨i, (pool.instr i).literal⟩

def isConstant (pool : Pool) (v : ValueId) : Bool := (pool.constant? v).isSome

/-- Whether a value is an integer constant that fits in the literal operand of an instruction. -/
def fitsInLiteral (pool : Pool) (instr : Instruction) (v : ValueId) : Except Fault Bool :=
  if instr.numeric = some .int then
    match pool.constant? v with
    | some constant => Literal.fitsInBits constant.literal instr.literalBits
    | none => .ok false
  else .ok false

/-- Whether an instruction needs one of its inputs in a register. The left operand of arithmetic is
in a register, except that a small constant may be subtracted from: there the left operand is the
literal, if the right one is another value and not a constant. Arithmetic without two operands has
no encoding. -/
def needsInRegister (pool : Pool) (i : InstrId) (v : ValueId) : Except Fault Bool :=
  let instr := pool.instr i
  if instr.opcode.isBinop then
    match instr.inputs with
    | left :: right :: _ =>
      if instr.opcode = .sub then
        if v = left ∧ v ≠ right ∧ pool.isConstant right = false then
          return !(← pool.fitsInLiteral instr v)
        else .ok true
      else if v = left then .ok true
      else return !(← pool.fitsInLiteral instr v)
    | _ => .error .undefined
  else .ok true

/-- Whether a value has to be in a register. A constant has to if one of its users cannot encode it
as a literal; every other value always has to. -/
def needsRegister (pool : Pool) (v : ValueId) : Except Fault Bool :=
  if pool.isConstant v then (pool.value v).uses.anyM (pool.needsInRegister · v) else .ok true

/-! ## Text -/

/-- An instruction with the labels of its values. -/
def instrText (pool : Pool) (i : InstrId) : String :=
  let instr := pool.instr i
  Decimal.ofWord instr.number ++ " (" ++ instr.opcodeName
    ++ " " ++ (match instr.out with
      | some v => pool.label v
      | none => "()")
    ++ (match instr.literal with
      | some literal => " " ++ literal.text
      | none => "")
    ++ (if instr.method = "" then "" else " " ++ instr.method)
    ++ String.join (instr.inputs.map fun v => " " ++ pool.label v)
    ++ ")"

end Pool
end RegisterAllocation
