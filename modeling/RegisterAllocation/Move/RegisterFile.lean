import RegisterAllocation.Move.Basic

/-!
# Running moves

A register file gives contents to every slot. Moves can be run one after another, or in parallel,
where every source is read before any target is written.

To compare the two, the slots start out with contents that tell where they come from. A schedule is
right for a set of moves if running it leaves the same contents as running the set in parallel, in
every slot that the set writes and in every slot below the temporaries.
-/

namespace RegisterAllocation

/-- What a slot of a register file holds. -/
inductive Content where
  /-- What the slot of that number held at first. -/
  | initial (register : Register)
  /-- One slot of a constant; wide constants fill two. The constant of a move that lacks one is
  `none`. -/
  | constant (constant : Option Constant) (half : Nat)
  /-- Anything else, known by a text. -/
  | named (text : String)
deriving DecidableEq, Repr

namespace Content

/-- The text of the contents of a slot. -/
def text : Content → Except Fault String
  | initial register => .ok ("r" ++ Decimal.ofWord register)
  | constant (some known) half => do return "'" ++ (← known.text) ++ "." ++ Decimal.ofNat half
  | constant none _ => .error .undefined
  | named text => .ok text

end Content

/-- The contents of all slots: the latest entry of a slot counts, and a slot without an entry holds
what it held at first. -/
structure RegisterFile where
  entries : List (Register × Content) := []
deriving Repr

namespace RegisterFile

/-- The register file in which nothing has happened. -/
def initial : RegisterFile := {}

def get (file : RegisterFile) (slot : Register) : Content :=
  (file.entries.lookup slot).getD (.initial slot)

def set (file : RegisterFile) (slot : Register) (content : Content) : RegisterFile :=
  ⟨(slot, content) :: file.entries⟩

def constantSlots (constant : Option Constant) : MoveType → List Content
  | .wide => [.constant constant 0, .constant constant 1]
  | _ => [.constant constant 0]

/-- What a move would write. -/
def read (file : RegisterFile) (move : Move) : List Content :=
  match move.source with
  | .register _ => move.slotsRead.map file.get
  | .constant constant => constantSlots (some constant) move.type
  | .missing => constantSlots none move.type

/-- Writes the contents for the slots of a move. -/
def write (file : RegisterFile) (move : Move) (contents : List Content) : RegisterFile :=
  (move.written.zip contents).foldl (fun file (slot, content) => file.set slot content) file

def run (file : RegisterFile) (moves : List Move) : RegisterFile :=
  moves.foldl (fun file move => file.write move (file.read move)) file

/-- Runs moves in parallel. If two of them write a slot, the later one in the list counts. -/
def runParallel (file : RegisterFile) (moves : List Move) : RegisterFile :=
  moves.foldl (fun after move => after.write move (file.read move)) file

end RegisterFile

/-- A slot with other contents than it should have. -/
structure WrongSlot where
  slot : Register
  found : Content
  wanted : Content
deriving DecidableEq, Repr

namespace WrongSlot

def message (wrong : WrongSlot) : Except Fault String := do
  return "register " ++ Decimal.ofWord wrong.slot ++ " holds " ++ (← wrong.found.text) ++ ", want "
    ++ (← wrong.wanted.text)

end WrongSlot

namespace Move

/-- The slots to look at: those that the moves write, and those below the temporaries that the
schedule writes. -/
def touched (moves scheduled : List Move) (temporary : Register) : WordSet :=
  WordSet.ofList
    (moves.flatMap (·.written) ++ (scheduled.flatMap (·.written)).filter (· < temporary))

/-- The lowest slot in which a schedule differs from its moves. -/
def wrongSlot? (moves scheduled : List Move) (temporary : Register) : Option WrongSlot :=
  let parallel := RegisterFile.initial.runParallel moves
  let sequential := RegisterFile.initial.run scheduled
  (touched moves scheduled temporary).members.findSome? fun slot =>
    let found := sequential.get slot
    let wanted := parallel.get slot
    if found = wanted then none else some ⟨slot, found, wanted⟩

end Move
end RegisterAllocation
