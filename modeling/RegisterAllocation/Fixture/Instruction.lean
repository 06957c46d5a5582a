import RegisterAllocation.Fixture.Draft

/-!
# Written instructions

An instruction is written as a list of its number, its operation, its output and its inputs. A
`const` has a literal instead of inputs, and a method call has the method before its output.
Arithmetic names its operand type, as in `add-int`.
-/

namespace RegisterAllocation
namespace Draft

/-- Splits a text at its last hyphen. -/
def splitAtLastHyphen? (cs : List Char) : Option (List Char × List Char) :=
  let back := cs.reverse
  let type := back.takeWhile (· ≠ '-')
  match back.dropWhile (· ≠ '-') with
  | _ :: name => some (name.reverse, type.reverse)
  | [] => none

/-- The operation with the given name, and for arithmetic its operand type. -/
def opcodeOfName? (name : String) : Option (Opcode × Option NumericType) :=
  match (Opcode.ofName? name).filter (!·.isBinop) with
  | some opcode => some (opcode, none)
  | none => do
    let (front, back) ← splitAtLastHyphen? name.toList
    let opcode ← Opcode.ofName? (String.ofList front)
    let numeric ← NumericType.ofName? (String.ofList back)
    if opcode.isBinop then some (opcode, some numeric) else none

/-- The output of an instruction: a definition, or the empty list if there is none. -/
def output (draft : Draft) (expr : SExpr) : Except FormFailure (Option ValueId × Draft) :=
  match expr with
  | .list [] _ => .ok (none, draft)
  | .list .. => do
    let (v, draft) ← draft.lookup expr
    return (some v, draft)
  | _ => expr.refuse (.badOutput expr.text)

/-- The inputs of an instruction, which are names. -/
def inputs (draft : Draft) : List SExpr → Except FormFailure (List ValueId)
  | [] => .ok []
  | expr :: exprs => do
    if expr.isList then expr.refuse (.badInput expr.text)
    let (v, _) ← draft.lookup expr
    return v :: (← draft.inputs exprs)

/-- A literal: an integer, or any other number written as a symbol. -/
def literal (expr : SExpr) : Except FormFailure Literal :=
  match expr with
  | .int n _ => .ok (.int n.toInt)
  | .symbol name _ =>
    match Literal.ofFloatText name.toList with
    | .unknown => expr.refuse (.badLiteral expr.text)
    | known => .ok known
  | .list .. => expr.refuse (.badLiteral expr.text)

/-- Keeps the pool with a new instruction. -/
def keep (draft : Draft) (made : Except Fault (InstrId × Pool)) :
    Except FormFailure (InstrId × Draft) := do
  let (i, pool) ← FormFailure.lift made
  return (i, { draft with unit := { draft.unit with pool } })

/-- The instruction with the given operation and operands, which is added to the pool. -/
def addOperation (draft : Draft) (entry : SExpr) (number : Int64) (name : String)
    (opcode : Opcode) (numeric : Option NumericType) (operands : List SExpr) :
    Except FormFailure (InstrId × Draft) := do
  if opcode = .const then
    match operands with
    | [out, value] =>
      let (out, draft) ← draft.output out
      let value ← literal value
      draft.keep (draft.unit.pool.addConst number out (some value))
    | _ => entry.refuse (.badConst entry.text)
  else if opcode.isBinop then
    match operands with
    | [out, left, right] =>
      match ← draft.inputs [left, right] with
      | [left, right] =>
        let (out, draft) ← draft.output out
        draft.keep (draft.unit.pool.addBinop number opcode numeric out left right)
      | _ => .error (.fault .undefined)
    | _ => entry.refuse (.badBinop name entry.text)
  else if opcode = .invoke ∨ opcode = .invokeRange then
    match operands with
    | .symbol method _ :: out :: inputs =>
      let (out, draft) ← draft.output out
      let inputs ← draft.inputs inputs
      draft.keep (draft.unit.pool.addInvoke number opcode method out inputs)
    | _ => entry.refuse (.badInvoke name entry.text)
  else
    match operands with
    | [] => entry.refuse (.missingOutput entry.text)
    | out :: inputs =>
      if opcode = .move ∧ inputs.length ≠ 1 then entry.refuse (.badMove entry.text)
      let (out, draft) ← draft.output out
      let inputs ← draft.inputs inputs
      draft.keep (draft.unit.pool.addInstr { number, opcode, out, inputs })

/-- Reads an instruction and adds it to the pool. Its form has been looked at before: there is no
meaning to an entry without a number and an operation. -/
def readInstruction (draft : Draft) (entry : SExpr) : Except FormFailure (InstrId × Draft) :=
  match entry with
  | .list (number :: operation :: operands) _ => do
    let n ← number.toInt "instruction number"
    if n ≤ 0 then entry.refuse (.instrNotPositive n)
    match operation with
    | .symbol name _ =>
      match opcodeOfName? name with
      | some (opcode, numeric) => draft.addOperation entry n name opcode numeric operands
      | none => operation.refuse (.unknownOpcode name)
    | _ => entry.refuse (.badOpcode operation.text)
  | _ => .error (.fault .undefined)

end Draft
end RegisterAllocation
