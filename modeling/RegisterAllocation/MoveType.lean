import RegisterAllocation.Container.WordSet
import RegisterAllocation.Fault

/-!
# Registers, positions and widths

Registers and instruction positions are 64-bit words, and arithmetic on them wraps around. A value
is one slot wide or, for wide values, two consecutive slots `r` and `r + 1`.
-/

namespace RegisterAllocation

/-- The number of a register slot. -/
abbrev Register := Int64

/-- A place in the linear order of instructions. -/
abbrev Position := Int64

/-- The register number that stands for no register. -/
def noRegister : Register := -1

/-- A register number as a choice of register; `-1` chooses none. -/
def Register.choice? (register : Register) : Option Register :=
  if register = noRegister then none else some register

/-- The width class of a value. -/
inductive MoveType where
  | single
  | wide
  | object
deriving DecidableEq, Repr, Inhabited

namespace MoveType

/-- The move types in the order of their codes. -/
def all : List MoveType := [single, wide, object]

def name : MoveType → String
  | single => "single"
  | wide => "wide"
  | object => "object"

def code : MoveType → Nat
  | single => 0
  | wide => 1
  | object => 2

def ofName? (name : String) : Option MoveType := all.find? (·.name = name)

def ofCode? (code : Int64) : Option MoveType := all.find? (fun type => Int64.ofNat type.code = code)

/-- The number of register slots that a value takes. -/
def width : MoveType → Int64
  | wide => 2
  | _ => 1

/-- The name for a code; codes that are not in use have a name too. -/
def nameOfCode (code : Int64) : String :=
  match ofCode? code with
  | some type => type.name
  | none => "movetype" ++ Decimal.ofWord code

/-- The number of slots for a code; codes that are not in use count as one slot. -/
def widthOfCode (code : Int64) : Int64 :=
  match ofCode? code with
  | some type => type.width
  | none => 1

/-- The slots of a value in the register `register`. -/
def footprint (type : MoveType) (register : Register) : List Register :=
  match type with
  | wide => [register, register + 1]
  | _ => [register]

/-- The slots from `register` up to the end of a value there, none if that end wraps around. -/
def span (type : MoveType) (register : Register) : List Register :=
  if register < register + type.width then type.footprint register else []

/-- Whether values in two registers share a slot. -/
def footprintsMeet (type : MoveType) (register : Register) (type' : MoveType)
    (register' : Register) : Bool :=
  (type.footprint register).any (type'.footprint register').contains

/-- The move type of values with the given first character of a type descriptor. -/
def ofDescriptor (c : Char) : Except Fault MoveType :=
  if c ∈ ['L', '['] then .ok object
  else if c ∈ ['Z', 'B', 'S', 'C', 'I', 'F'] then .ok single
  else if c ∈ ['J', 'D'] then .ok wide
  else if c = 'V' then .error .voidDescriptor
  else .error (.unknownDescriptor c)

end MoveType
end RegisterAllocation
