import RegisterAllocation.Text.Decimal

/-!
# Faults

A fault is a broken contract between the library and its caller: an operation was asked for
something it has no answer to. It is different from a unit that cannot be allocated and from an
input that cannot be read, which have types of their own.

`Fault.undefined` covers the operations that have no meaning at all on their arguments, such as
printing a constant that does not exist. Only these have no message.
-/

namespace RegisterAllocation

/-- A broken contract, with what its message tells. -/
inductive Fault where
  /-- The operation has no meaning on its arguments. -/
  | undefined
  /-- The descriptor of no value. -/
  | voidDescriptor
  /-- A character that starts no type descriptor. -/
  | unknownDescriptor (c : Char)
  | emptyQueue
  | popEmptyStack
  | topEmptyStack
  /-- Padding to a column left of the margin. -/
  | negativePadding
  | notBinop (opcode : String)
  | notInvoke (opcode : String)
  /-- A second definition of a value. -/
  | redefined (value : String)
  | emptyInterval (value : String) (start stop : Int64)
  | numberTaken (unit : String) (number : Int64)
  | outOfOrder (unit : String) (number last : Int64)
  | notPositive (unit : String) (number : Int64)
  | neverDefined (unit value : String)
  /-- The union of live ranges that share a position. -/
  | conflictingRanges (left right : String)
  | constantWithoutDefinition
  | sameDestination (left right : String)
  | overlapsTemporary (move : String) (temporary : Int64)
  /-- A reserved slot that no piece accounts for. -/
  | reservedWithoutPiece
  | notAllocated (unit : String)
  | noRegister (unit value : String) (position : Int64)
deriving DecidableEq, Repr

namespace Fault

/-- The text of a fault. -/
def message? : Fault → Option String
  | undefined => none
  | voidDescriptor => some "void type has no move type"
  | unknownDescriptor c =>
      some ("unexpected type descriptor character '" ++ String.singleton c ++ "'")
  | emptyQueue => some "peeking into an empty priority queue"
  | popEmptyStack => some "popping from empty stack"
  | topEmptyStack => some "top from empty stack"
  | negativePadding => some "strings: negative Repeat count"
  | notBinop opcode => some (opcode ++ " is not a binop")
  | notInvoke opcode => some (opcode ++ " is not an invoke")
  | redefined value => some (value ++ " is defined twice")
  | emptyInterval value start stop =>
    some (value ++ ": empty live interval [" ++ Decimal.ofWord start ++ ", "
      ++ Decimal.ofWord stop ++ ")")
  | numberTaken unit number =>
    some (unit ++ ": value number " ++ Decimal.ofWord number ++ " used twice")
  | outOfOrder unit number last =>
    some (unit ++ ": instruction " ++ Decimal.ofWord number ++ " follows instruction "
      ++ Decimal.ofWord last)
  | notPositive unit number =>
    some (unit ++ ": instruction number " ++ Decimal.ofWord number ++ " is not positive")
  | neverDefined unit value => some (unit ++ ": " ++ value ++ " is never defined")
  | conflictingRanges left right =>
    some ("union of conflicting live ranges " ++ left ++ " and " ++ right)
  | constantWithoutDefinition => some "constant move without a constant definition"
  | sameDestination left right =>
    some ("moves " ++ left ++ " and " ++ right ++ " write the same register")
  | overlapsTemporary move temporary =>
    some ("move " ++ move ++ " overlaps temporary register " ++ Decimal.ofWord temporary)
  | reservedWithoutPiece => some "fixed register conflict with no user"
  | notAllocated unit => some (unit ++ ": registers have not been allocated")
  | noRegister unit value position =>
    some (unit ++ ": " ++ value ++ " has no register at " ++ Decimal.ofWord position)

end Fault
end RegisterAllocation
