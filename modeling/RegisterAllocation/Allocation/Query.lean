import RegisterAllocation.Allocation.Moves
import RegisterAllocation.Code.Operand

/-!
# Asking an allocation

Clients ask for registers through an allocator, which has an answer only after a unit has been
allocated. The unit may have changed since; questions are answered about the unit as it is.
-/

namespace RegisterAllocation

/-- An allocator: its limits and, once it has succeeded, the allocation. -/
structure Allocator where
  config : Config := {}
  allocation : Option Allocation := none
deriving DecidableEq, Repr

namespace Allocator

/-- Allocates a unit. After a failure there is no allocation, also if there was one before. -/
def run (allocator : Allocator) (u : CodeUnit) : Allocator × Option Failure :=
  match u.allocate allocator.config with
  | .ok allocation => ({ allocator with allocation := some allocation }, none)
  | .error failure => ({ allocator with allocation := none }, some failure)

/-- The allocation, which has to be there. -/
def get (allocator : Allocator) (u : CodeUnit) : Except Fault Allocation :=
  match allocator.allocation with
  | some allocation => .ok allocation
  | none => .error (.notAllocated u.name)

def registersUsed (allocator : Allocator) (u : CodeUnit) : Except Fault Int64 := do
  return (← allocator.get u).registersUsed

/-- The register of a value at a position of its live interval. -/
def placement (allocator : Allocator) (u : CodeUnit) : Placement := fun v position => do
  match Piece.registerAt? (← allocator.get u).pieces v position with
  | some register => .ok register
  | none => .error (.noRegister u.name (u.label v) position)

/-- Whether the last slot of a value does not fit the short encodings. -/
def usesHighRegister (allocator : Allocator) (u : CodeUnit) (v : ValueId) (position : Position) :
    Except Fault Bool := do
  let register ← allocator.placement u v position
  return allocator.config.highThreshold < register + u.pool.width v - 1

/-- The positions that have moves, in ascending order. -/
def movePositions (allocator : Allocator) (u : CodeUnit) : Except Fault (List Position) := do
  return (← allocator.get u).moveSets.map (·.position)

/-- The moves to carry out, one after another, before the instruction at a position. -/
def scheduledMoves (allocator : Allocator) (u : CodeUnit) (position : Position) :
    Except Fault (List Move) := do
  match (← allocator.get u).moveSets.find? (·.position = position) with
  | some set => return set.scheduled
  | none => return []

def pieces (allocator : Allocator) (u : CodeUnit) (v : ValueId) : Except Fault (List Piece) := do
  return Piece.ofValue (← allocator.get u).pieces v

end Allocator
end RegisterAllocation
