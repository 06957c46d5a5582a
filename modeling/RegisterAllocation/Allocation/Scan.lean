import RegisterAllocation.Allocation.Fixed
import RegisterAllocation.Container.PriorityQueue
import RegisterAllocation.Container.Sorting

/-!
# The scan

Values without a fixed register are placed in the order of their starts, each in the lowest register
that is free for its whole interval. When none is free, values that are live and end later than the
new one give way, the one that ends last first: what is left of them moves to the spill area above
the allocatable registers. If that makes no room, the new value itself goes there.
-/

namespace RegisterAllocation

/-- The moves collected for each position, in ascending order of position. -/
abbrev MoveTable := List (Position × List Move)

/-- Adds a move at a position, behind those that are there. -/
def MoveTable.add (table : MoveTable) (position : Position) (move : Move) : MoveTable :=
  match table with
  | [] => [(position, [move])]
  | (other, moves) :: rest =>
    if position = other then (other, moves ++ [move]) :: rest
    else if position < other then (position, [move]) :: (other, moves) :: rest
    else (other, moves) :: MoveTable.add rest position move

/-- The state of the scan. -/
structure Scan where
  /-- The current pieces of the values that are live, in the order of placement. -/
  active : List Piece := []
  /-- Pieces that have ended. -/
  ended : List Piece := []
  moves : MoveTable := []
deriving Repr

namespace Scan

/-- Ends the pieces that stop at or before a position. -/
def expire (scan : Scan) (position : Position) : Scan :=
  { scan with
    active := scan.active.filter fun piece => !(piece.stop ≤ position)
    ended := scan.ended ++ scan.active.filter fun piece => piece.stop ≤ position }

/-- Whether a slot is free of active pieces, and of fixed ones during `live`. -/
def slotFree (scan : Scan) (u : CodeUnit) (reserved : Reserved) (live : LiveRange)
    (slot : Register) : Bool :=
  !(reserved.rangeAt slot).conflicts live && !scan.active.any (·.usesSlot u.pool slot)

/-- The lowest register from `low` on and below `high` in which a value is free of others from
`start` to `stop`. -/
def findFree? (scan : Scan) (u : CodeUnit) (reserved : Reserved) (low high : Register)
    (type : MoveType) (start stop : Position) : Option Register := do
  let register ← Register.leastFrom? (fun register => register + type.width ≤ high)
    (fun register =>
      (type.span register).all (scan.slotFree u reserved (.single start stop))) low
  register.choice?

/-- A register in the spill area for a value from `start` to `stop`. -/
def spillRegister (scan : Scan) (u : CodeUnit) (config : Config) (reserved : Reserved)
    (v : ValueId) (start stop : Position) : Except Failure Register :=
  match scan.findFree? u reserved config.registers config.maxRegisters (u.value v).type start
      stop with
  | some register => .ok register
  | none => .error (.rejected u.name (.outOfRegisters (u.label v) start))

/-- Whether the first of two pieces gives way before the second: it ends later, or it starts later,
or its value has the higher number. -/
def yieldsBefore (pool : Pool) (piece other : Piece) : Bool :=
  other.stop < piece.stop
  || (other.stop = piece.stop
    && (other.start < piece.start
      || (other.start = piece.start
        && (pool.value other.value).number < (pool.value piece.value).number)))

/-- The active pieces in allocatable registers, in the order in which they give way. -/
def candidates (scan : Scan) (u : CodeUnit) (config : Config) : List Piece :=
  Sorting.sort (yieldsBefore u.pool)
    (scan.active.filter fun piece =>
      !(config.registers < piece.register + u.pool.width piece.value))

/-- Moves the part of an active piece from `position` on to the spill area. A piece that starts
there moves as a whole; otherwise the value is moved, or its constant made again, at that
position. -/
def evict (scan : Scan) (u : CodeUnit) (config : Config) (reserved : Reserved) (victim : Piece)
    (position : Position) : Except Failure Scan := do
  let others := { scan with active := scan.active.filter (·.value ≠ victim.value) }
  let register ← others.spillRegister u config reserved victim.value position victim.stop
  let tail : Piece := { victim with start := position, register }
  if victim.start = position then
    return { others with active := others.active ++ [tail] }
  else
    let type := (u.value victim.value).type
    let move : Move := match u.pool.constant? victim.value with
      | some constant => ⟨register, .constant constant, type⟩
      | none => .ofRegisters register victim.register type
    return {
      active := others.active ++ [tail]
      ended := others.ended ++ [{ victim with stop := position }]
      moves := others.moves.add position move }

/-- Makes a value active in a register. -/
def activate (scan : Scan) (u : CodeUnit) (v : ValueId) (register : Register) : Scan :=
  let value := u.value v
  { scan with active := scan.active ++ [⟨v, value.start, value.stop, register⟩] }

/-- Places a value in an allocatable register that is free. -/
def placeFree? (scan : Scan) (u : CodeUnit) (config : Config) (reserved : Reserved) (v : ValueId) :
    Option Scan :=
  let value := u.value v
  (scan.findFree? u reserved 0 config.registers value.type value.start value.stop).map
    (scan.activate u v)

/-- Places a value in the spill area. -/
def spill (scan : Scan) (u : CodeUnit) (config : Config) (reserved : Reserved) (v : ValueId) :
    Except Failure Scan := do
  let value := u.value v
  return scan.activate u v (← scan.spillRegister u config reserved v value.start value.stop)

/-- Places a value, evicting as many of the candidates as it takes. -/
def placeEvicting (u : CodeUnit) (config : Config) (reserved : Reserved) (v : ValueId)
    (scan : Scan) : List Piece → Except Failure Scan
  | [] =>
    match scan.placeFree? u config reserved v with
    | some placed => .ok placed
    | none => scan.spill u config reserved v
  | victim :: rest =>
    match scan.placeFree? u config reserved v with
    | some placed => .ok placed
    | none =>
      if (u.value v).stop < victim.stop then do
        let evicted ← scan.evict u config reserved victim (u.value v).start
        placeEvicting u config reserved v evicted rest
      else scan.spill u config reserved v

/-- Places the values of a list, which is in the order of starts. -/
def placeAll (u : CodeUnit) (config : Config) (reserved : Reserved) (scan : Scan) :
    List ValueId → Except Failure Scan
  | [] => .ok scan
  | v :: vs => do
    let current := scan.expire (u.value v).start
    let placed ← placeEvicting u config reserved v current (current.candidates u config)
    placeAll u config reserved placed vs

/-- The order of the scan: by start, then by number. -/
def startsBefore (pool : Pool) (v w : ValueId) : Bool :=
  let x := pool.value v
  let y := pool.value w
  x.start < y.start || (x.start = y.start && x.number < y.number)

/-- The values that have to be placed by the scan. -/
def unplaced (u : CodeUnit) (reserved : Reserved) : List ValueId → Except Fault (List ValueId)
  | [] => .ok []
  | v :: vs => do
    if (← u.pool.needsRegister v) ∧ (Piece.ofValue reserved.pieces v).isEmpty then
      return v :: (← unplaced u reserved vs)
    else unplaced u reserved vs

def ofUnit (u : CodeUnit) (config : Config) (reserved : Reserved) : Except Failure Scan := do
  let vs ← Failure.lift (unplaced u reserved u.values)
  let queue := PriorityQueue.ofList (startsBefore u.pool) vs
  placeAll u config reserved {} (queue.drain (startsBefore u.pool))

end Scan
end RegisterAllocation
