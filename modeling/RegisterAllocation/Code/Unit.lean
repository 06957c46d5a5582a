import RegisterAllocation.Code.Pool
import RegisterAllocation.Container.Bisection
import RegisterAllocation.Container.Dictionary
import RegisterAllocation.Container.KeyOrder

/-!
# Code units

A code unit is one method body ready for register allocation: its arguments, its instructions in
order, its values sorted by number and its copies.

Operations that can be refused after they have changed something give the unit that is left behind
together with the fault.
-/

namespace RegisterAllocation

/-- One method body. -/
structure CodeUnit where
  name : String
  /-- All values and instructions, those outside of the unit included. -/
  pool : Pool := Pool.empty
  arguments : List ValueId := []
  instrs : List InstrId := []
  /-- The values of the unit, sorted by number. -/
  values : List ValueId := []
  copies : List Copy := []
deriving DecidableEq, Repr, Inhabited

namespace CodeUnit

def value (u : CodeUnit) (v : ValueId) : Value := u.pool.value v

def instr (u : CodeUnit) (i : InstrId) : Instruction := u.pool.instr i

def label (u : CodeUnit) (v : ValueId) : String := u.pool.label v

def modifyValue (u : CodeUnit) (v : ValueId) (change : Value → Value) : CodeUnit :=
  { u with pool := u.pool.modifyValue v change }

/-! ## Building -/

/-- Adds a value of the pool to the unit, unless its number is taken. All values are sorted
again. -/
def addValue (u : CodeUnit) (v : ValueId) : Except Fault CodeUnit :=
  let number := (u.value v).number
  if u.values.any fun w => (u.value w).number = number then
    .error (.numberTaken u.name number)
  else .ok { u with values := sortByKey (fun w => (u.value w).number) (u.values ++ [v]) }

/-- Lists a value as an argument. -/
def markArgument (u : CodeUnit) (v : ValueId) : CodeUnit :=
  { u with
    pool := u.pool.modifyValue v fun value => { value with isArgument := true }
    arguments := u.arguments ++ [v] }

/-- Adds a value as an argument. If its number is taken it stays listed as an argument, but is not
one of the values. -/
def addArgument (u : CodeUnit) (v : ValueId) : CodeUnit × Option Fault :=
  let marked := u.markArgument v
  match marked.addValue v with
  | .ok added => (added, none)
  | .error fault => (marked, some fault)

/-- Appends an instruction of the pool. Instruction numbers are positive and increase. -/
def addInstr (u : CodeUnit) (i : InstrId) : Except Fault CodeUnit :=
  let number := (u.instr i).number
  match u.instrs.getLast? with
  | some last =>
    if number ≤ (u.instr last).number then
      .error (.outOfOrder u.name number (u.instr last).number)
    else .ok { u with instrs := u.instrs ++ [i] }
  | none =>
    if number ≤ 0 then .error (.notPositive u.name number)
    else .ok { u with instrs := u.instrs ++ [i] }

def addCopy (u : CodeUnit) (copy : Copy) : CodeUnit := { u with copies := u.copies ++ [copy] }

/-! ## Finding values -/

/-- The value with the given number, by binary search. -/
def findValue? (u : CodeUnit) (number : Int64) : Option ValueId := do
  let isBelow := fun i => (u.value (u.values.getD i 0)).number - number < 0
  let v ← u.values[bisect isBelow 0 u.values.length]?
  if (u.value v).number = number then some v else none

/-! ## Live intervals -/

/-- Where values are defined: arguments at zero, outputs at their instructions, and the targets of
copies. -/
def definitions (u : CodeUnit) : List (ValueId × Position) :=
  u.arguments.map (·, 0)
    ++ u.instrs.filterMap (fun i => (u.instr i).out.map (·, (u.instr i).number))
    ++ u.copies.map fun copy => (copy.target, copy.position)

/-- What walking over a unit has found out about its values: where they begin, and where they
end. -/
structure Extents where
  starts : Dictionary ValueId Position := {}
  ends : Dictionary ValueId Position := {}
deriving Repr

namespace Extents

/-- A value is live at a position: it ends after it. -/
def extend (extents : Extents) (v : ValueId) (position : Position) : Extents :=
  if (extents.ends.get? v).all (· < position + 1) then
    { extents with ends := extents.ends.set v (position + 1) }
  else extents

/-- A value is defined at a position: it begins there or before. -/
def begin (extents : Extents) (v : ValueId) (position : Position) : Extents :=
  let begun : Extents :=
    if (extents.starts.get? v).all (position < ·) then
      { extents with starts := extents.starts.set v position }
    else extents
  begun.extend v position

/-- An instruction defines its output and reads its inputs. -/
def addInstr (extents : Extents) (instr : Instruction) : Extents :=
  let begun := match instr.out with
    | some v => extents.begin v instr.number
    | none => extents
  instr.inputs.foldl (fun extents v => extents.extend v instr.number) begun

/-- A copy reads its source just before its position and defines its target there. -/
def addCopy (extents : Extents) (copy : Copy) : Extents :=
  (extents.extend copy.source (copy.position - 1)).begin copy.target copy.position

end Extents

/-- What happens to the values: the arguments begin at zero, then come the instructions and then the
copies. -/
def extents (u : CodeUnit) : Extents :=
  let arguments := u.arguments.foldl (fun extents v => extents.begin v 0) {}
  let instrs := u.instrs.foldl (fun extents i => extents.addInstr (u.instr i)) arguments
  u.copies.foldl Extents.addCopy instrs

/-- Gives intervals to those of the values `vs` that have none. Stops at a value that does not
begin. -/
def fillIntervals (u : CodeUnit) (extents : Extents) : List ValueId → CodeUnit × Option Fault
  | [] => (u, none)
  | v :: vs =>
    if (u.value v).hasInterval then u.fillIntervals extents vs
    else match extents.starts.get? v with
      | none => (u, some (.neverDefined u.name (u.label v)))
      | some start =>
        match u.pool.setInterval v start ((extents.ends.get? v).getD 0) with
        | .ok pool => { u with pool }.fillIntervals extents vs
        | .error fault => (u, some fault)

/-- Gives an interval to every value of the unit that has none. -/
def computeIntervals (u : CodeUnit) : CodeUnit × Option Fault :=
  u.fillIntervals u.extents u.values

end CodeUnit
end RegisterAllocation
