import RegisterAllocation.Allocation.Basic
import RegisterAllocation.LiveRange

/-!
# Fixed registers

Arguments arrive in consecutive registers from zero, pinned values have to be in their registers,
and the inputs of an `invoke-range` go in consecutive registers, at the lowest place where they do
not get in the way of values placed before. All of these keep one register over their whole
interval.
-/

namespace RegisterAllocation

/-- The least register from `register` on that is free. The search goes on as long as `inBounds`
says so, and ends where register numbers do. -/
def Register.leastFrom? (inBounds free : Register → Bool) (register : Register) : Option Register :=
  if inBounds register then
    if free register then some register
    else if _h : register < register + 1 then leastFrom? inBounds free (register + 1)
    else none
  else none
termination_by (Int64.maxValue.toInt - register.toInt).toNat
decreasing_by
  have h1 := Int64.lt_iff_toInt_lt.mp _h
  have h2 := Int64.toInt_le (register + 1)
  omega

/-- The values placed so far: their pieces, and for every slot the positions at which it is
taken. -/
structure Reserved where
  pieces : List Piece := []
  /-- The latest entry of a slot counts. -/
  ranges : List (Register × LiveRange) := []
deriving Repr

namespace Reserved

/-- The positions at which a slot is taken. -/
def rangeAt (reserved : Reserved) (slot : Register) : LiveRange :=
  (reserved.ranges.lookup slot).getD .empty

/-- Of the pieces of each value the last one, which takes the place of those before. -/
def latest : List Piece → List Piece
  | [] => []
  | piece :: rest =>
    if rest.any (·.value = piece.value) then latest rest else piece :: latest rest

def liveRange (u : CodeUnit) (v : ValueId) : LiveRange :=
  .single (u.value v).start (u.value v).stop

/-- The piece that takes a slot while `v` is live. -/
def userOf (reserved : Reserved) (u : CodeUnit) (slot : Register) (v : ValueId) :
    Except Failure Piece :=
  let value := u.value v
  match reserved.pieces.find? fun piece =>
      piece.usesSlot u.pool slot && piece.start < value.stop && value.start < piece.stop with
  | some piece => .ok piece
  | none => .error (.fault .reservedWithoutPiece)

/-- Refuses the slots that are taken while `v` is live. -/
def checkSlots (reserved : Reserved) (u : CodeUnit) (v : ValueId) :
    List Register → Except Failure Unit
  | [] => .ok ()
  | slot :: slots =>
    if (reserved.rangeAt slot).conflicts (liveRange u v) then do
      let user ← reserved.userOf u slot v
      .error (.rejected u.name (.fixedTwice (u.label user.value) (u.label v) slot))
    else reserved.checkSlots u v slots

/-- Takes slots while `v` is live. -/
def takeSlots (u : CodeUnit) (v : ValueId) (ranges : List (Register × LiveRange)) :
    List Register → Except Fault (List (Register × LiveRange))
  | [] => .ok ranges
  | slot :: slots => do
    let taken ← ((ranges.lookup slot).getD .empty).union (liveRange u v)
    takeSlots u v ((slot, taken) :: ranges) slots

/-- Places a value in a register for its whole interval. -/
def place (reserved : Reserved) (u : CodeUnit) (config : Config) (v : ValueId)
    (register : Register) : Except Failure Reserved := do
  let value := u.value v
  if register < 0 ∨ config.maxRegisters < register + value.type.width then
    .error (.rejected u.name (.badFixedRegister (u.label v) register))
  let slots := value.type.span register
  reserved.checkSlots u v slots
  let ranges ← Failure.lift (takeSlots u v reserved.ranges slots)
  return { pieces := reserved.pieces ++ [⟨v, value.start, value.stop, register⟩], ranges }

/-! ## Arguments and pinned values -/

/-- Places arguments in consecutive registers from `register` on. -/
def placeArguments (u : CodeUnit) (config : Config) (reserved : Reserved) (register : Register) :
    List ValueId → Except Failure Reserved
  | [] => .ok reserved
  | v :: vs => do
    if let some fixed := (u.value v).fixed then
      if fixed ≠ register then
        .error (.rejected u.name (.argumentElsewhere (u.label v) fixed register))
    let placed ← reserved.place u config v register
    placeArguments u config placed (register + u.pool.width v) vs

/-- Places the values that are pinned and need a register. -/
def placePinned (u : CodeUnit) (config : Config) (reserved : Reserved) :
    List ValueId → Except Failure Reserved
  | [] => .ok reserved
  | v :: vs => do
    match (u.value v).isArgument, (u.value v).fixed with
    | false, some register =>
      if ← Failure.lift (u.pool.needsRegister v) then
        let placed ← reserved.place u config v register
        placePinned u config placed vs
      else placePinned u config reserved vs
    | _, _ => placePinned u config reserved vs

/-! ## Ranges -/

/-- Checks that the inputs of a range can be placed and gives their total width. `seen` tells for
the inputs of ranges so far which instruction they belong to. -/
def checkRange (u : CodeUnit) (i : InstrId) (seen : List (ValueId × InstrId)) (width : Int64) :
    List ValueId → Except Failure (List (ValueId × InstrId) × Int64)
  | [] => .ok (seen, width)
  | v :: vs => do
    let number := (u.instr i).number
    if let some other := seen.lookup v then
      if other = i then .error (.rejected u.name (.twiceInRange (u.label v) number))
      else .error (.rejected u.name (.inTwoRanges (u.label v) (u.instr other).number number))
    if (u.value v).isArgument ∨ (u.value v).fixed.isSome then
      .error (.rejected u.name (.fixedInRange (u.label v) number))
    checkRange u i ((v, i) :: seen) (width + u.pool.width v) vs

/-- Whether values fit in consecutive registers from `register` on. -/
def fitsAt (reserved : Reserved) (u : CodeUnit) (register : Register) : List ValueId → Bool
  | [] => true
  | v :: vs =>
    (((u.value v).type.span register).all fun slot =>
      !(reserved.rangeAt slot).conflicts (liveRange u v))
    && reserved.fitsAt u (register + u.pool.width v) vs

/-- The lowest register at which values fit one after another among the allocatable registers. -/
def rangeBase? (reserved : Reserved) (u : CodeUnit) (config : Config) (inputs : List ValueId)
    (width : Int64) : Option Register :=
  Register.leastFrom? (fun base => base + width ≤ config.registers)
    (fun base => reserved.fitsAt u base inputs) 0

/-- Places values in consecutive registers from `register` on. -/
def placeRow (u : CodeUnit) (config : Config) (reserved : Reserved) (register : Register) :
    List ValueId → Except Failure Reserved
  | [] => .ok reserved
  | v :: vs => do
    let placed ← reserved.place u config v register
    placeRow u config placed (register + u.pool.width v) vs

/-- Places the inputs of the ranges among the given instructions. -/
def placeRanges (u : CodeUnit) (config : Config) (reserved : Reserved)
    (seen : List (ValueId × InstrId)) : List InstrId → Except Failure Reserved
  | [] => .ok reserved
  | i :: is => do
    let instr := u.instr i
    if instr.opcode = .invokeRange ∧ instr.inputs ≠ [] then
      let (seen, width) ← checkRange u i seen 0 instr.inputs
      if config.registers < width then
        .error (.rejected u.name (.rangeTooWide instr.number width config.registers))
      match reserved.rangeBase? u config instr.inputs width with
      | none => .error (.rejected u.name (.noRange instr.number))
      | some base =>
        let placed ← placeRow u config reserved base instr.inputs
        placeRanges u config placed seen is
    else placeRanges u config reserved seen is

/-- Places everything that has a fixed register. -/
def ofUnit (u : CodeUnit) (config : Config) : Except Failure Reserved := do
  let arguments ← placeArguments u config {} 0 u.arguments
  let pinned ← placePinned u config arguments u.values
  placeRanges u config pinned [] u.instrs

end Reserved
end RegisterAllocation
