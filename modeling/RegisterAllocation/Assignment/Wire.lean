import RegisterAllocation.Assignment.Basic
import RegisterAllocation.Cbor.Codec

/-!
# Assignments on the wire

Assignments are written as records whose fields have numbers. The lists of an assignment and the
constant of a move are left out when they are empty, while the inner lists are always there. Reading
fills in what is missing and then checks the types.

The bytes of the records are left to a codec.
-/

namespace RegisterAllocation

open Cbor

variable {ι : Type} (codec : Codec ι)

namespace LiveRegister

def toItem (live : LiveRegister) : ι :=
  codec.ofFields [(1, some (codec.word live.start)), (2, some (codec.word live.stop)),
    (3, some (codec.word live.register))]

/-- Reads a live register. -/
def ofItem? (item : ι) : Option LiveRegister := do
  let fields ← codec.toRecord? item
  return {
    start := ← readField? fields 1 0 codec.toWord?
    stop := ← readField? fields 2 0 codec.toWord?
    register := ← readField? fields 3 0 codec.toWord? }

end LiveRegister

namespace ValueRegisters

/-- The item of the registers of a value. -/
def toItem (value : ValueRegisters) : ι :=
  codec.ofFields [(1, some (codec.word value.value)), (2, some (codec.text value.type)),
    (3, some (codec.ofList? (LiveRegister.toItem codec) value.registers))]

/-- Reads the registers of a value. -/
def ofItem? (item : ι) : Option ValueRegisters := do
  let fields ← codec.toRecord? item
  return {
    value := ← readField? fields 1 0 codec.toWord?
    type := ← readField? fields 2 "" codec.toText?
    registers := ← readField? fields 3 none (codec.toList? (LiveRegister.ofItem? codec)) }

end ValueRegisters

namespace MoveRecord

def toItem (move : MoveRecord) : ι :=
  codec.ofFields [(1, some (codec.word move.target)), (2, some (codec.word move.source)),
    (3, some (codec.text move.type)), (4, codec.ofNonemptyText? move.constant)]

/-- Reads a move. -/
def ofItem? (item : ι) : Option MoveRecord := do
  let fields ← codec.toRecord? item
  return {
    target := ← readField? fields 1 0 codec.toWord?
    source := ← readField? fields 2 0 codec.toWord?
    type := ← readField? fields 3 "" codec.toText?
    constant := ← readField? fields 4 "" codec.toText? }

end MoveRecord

namespace MoveList

/-- The item of the moves at a position. -/
def toItem (list : MoveList) : ι :=
  codec.ofFields [(1, some (codec.word list.position)),
    (2, some (codec.ofList? (MoveRecord.toItem codec) list.moves))]

/-- Reads the moves at a position. -/
def ofItem? (item : ι) : Option MoveList := do
  let fields ← codec.toRecord? item
  return {
    position := ← readField? fields 1 0 codec.toWord?
    moves := ← readField? fields 2 none (codec.toList? (MoveRecord.ofItem? codec)) }

end MoveList

/-- Why bytes are refused as an assignment. -/
inductive WireError where
  /-- The bytes are not the item of an assignment. -/
  | malformed
  | invalid (error : AssignmentError)
deriving DecidableEq, Repr

namespace WireError

/-- The text of an error on the wire. Malformed bytes are not described. -/
def message? : WireError → Option String
  | malformed => none
  | invalid error => some ("regalloc: unmarshal assignment: " ++ error.message)

end WireError

namespace Assignment

/-- The item of an assignment. -/
def toItem (assignment : Assignment) : ι :=
  codec.ofFields [(1, some (codec.text assignment.unit)),
    (2, some (codec.word assignment.registersUsed)),
    (3, codec.ofNonempty? (ValueRegisters.toItem codec) assignment.values),
    (4, codec.ofNonempty? (MoveList.toItem codec) assignment.moves)]

/-- Reads an assignment. -/
def ofItem? (item : ι) : Option Assignment := do
  let fields ← codec.toRecord? item
  return {
    unit := ← readField? fields 1 "" codec.toText?
    registersUsed := ← readField? fields 2 0 codec.toWord?
    values := ← readField? fields 3 none (codec.toList? (ValueRegisters.ofItem? codec))
    moves := ← readField? fields 4 none (codec.toList? (MoveList.ofItem? codec)) }

def encode (assignment : Assignment) : List UInt8 := codec.write (assignment.toItem codec)

/-- Reads the bytes of an assignment and checks it. -/
def decode (bytes : List UInt8) : Except WireError Assignment :=
  match (codec.read? bytes).bind (ofItem? codec) with
  | none => .error .malformed
  | some assignment =>
    match assignment.check with
    | .ok () => .ok assignment
    | .error error => .error (.invalid error)

end Assignment
end RegisterAllocation
