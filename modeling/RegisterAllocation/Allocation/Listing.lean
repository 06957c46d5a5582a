import RegisterAllocation.Allocation.Query
import RegisterAllocation.Text.Page

/-!
# Listings of allocated units

A listing shows the arguments with their registers, every instruction with its operands, before it
the moves to be carried out, and at the end the registers of every value.
-/

namespace RegisterAllocation
namespace Listing

/-- What a line of the body of a listing shows. -/
inductive Step where
  | move (position : Position) (move : Move)
  | instr (i : InstrId)
deriving DecidableEq, Repr

/-- The moves of a position, in order. -/
def movesOf (set : MoveSet) : List Step := set.scheduled.map (.move set.position)

/-- The body of a listing: instructions, each after the moves up to its position, and the remaining
moves. -/
def body (u : CodeUnit) (sets : List MoveSet) : List InstrId → List Step
  | [] => sets.flatMap movesOf
  | i :: is =>
    let number := (u.instr i).number
    (sets.takeWhile (·.position ≤ number)).flatMap movesOf
      ++ .instr i :: body u (sets.dropWhile (·.position ≤ number)) is

end Listing

namespace Page

def startPosition (page : Page) (position : Position) : Page :=
  ((page.newline.padTo 2).write (Decimal.ofWord position)).padTo 8

/-- Writes a move. -/
def writeMove (page : Page) (position : Position) (move : Move) : Except Fault Page := do
  let source ← match move.source with
    | .register register => pure ("r" ++ Decimal.ofWord register)
    | .constant constant => do pure ("'" ++ (← constant.text))
    | .missing => .error .undefined
  return (page.startPosition position).write
    ("(move-" ++ move.type.name ++ " r" ++ Decimal.ofWord move.target ++ " " ++ source ++ ")")

def writeInstr (page : Page) (u : CodeUnit) (placement : Placement) (i : InstrId) :
    Except Fault Page := do
  let text ← u.pool.encodedText placement i
  return (page.startPosition (u.instr i).number).write text

/-- Writes a line of the body. -/
def writeStep (u : CodeUnit) (placement : Placement) (page : Page) :
    Listing.Step → Except Fault Page
  | .move position move => page.writeMove position move
  | .instr i => page.writeInstr u placement i

/-- Writes the arguments and their registers. -/
def writeArguments (u : CodeUnit) (placement : Placement) (page : Page) : Except Fault Page := do
  if u.arguments.isEmpty then return page
  let texts ← u.arguments.mapM fun v => do
    return " " ++ u.label v ++ "=r" ++ Decimal.ofWord (← placement v (u.value v).start)
  return (page.newline.padTo 2).write ("(arguments" ++ String.join texts ++ ")")

/-- Writes a value and its registers, if it needs any. -/
def writeValue (u : CodeUnit) (pieces : List Piece) (page : Page) (v : ValueId) :
    Except Fault Page := do
  if ← u.pool.needsRegister v then
    let texts := (Piece.ofValue pieces v).map fun piece =>
      " [" ++ Decimal.ofWord piece.start ++ "," ++ Decimal.ofWord piece.stop ++ ")=r"
        ++ Decimal.ofWord piece.register
    return (((page.newline.padTo 2).write
      ("(" ++ u.label v ++ " " ++ (u.value v).type.name)).padTo 24).write
      (String.join texts ++ ")")
  else return page

end Page

/-- The listing of an allocated unit. -/
def Allocator.listing (allocator : Allocator) (u : CodeUnit) : Except Fault String := do
  let allocation ← allocator.get u
  let placement := allocator.placement u
  let title := Page.empty.write
    ("(unit " ++ u.name ++ " registers " ++ Decimal.ofWord allocation.registersUsed)
  let arguments ← title.writeArguments u placement
  let steps ← (Listing.body u allocation.moveSets u.instrs).foldlM (Page.writeStep u placement)
    arguments
  let values ← u.values.foldlM (Page.writeValue u allocation.pieces) steps
  return (values.write ")").newline.text

end RegisterAllocation
