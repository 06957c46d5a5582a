import RegisterAllocation.Code.Operand
import RegisterAllocation.Container.Dictionary

/-!
# Duplicate instructions

Instructions that are encoded in the same way can share code. Each instruction has a key of six
words, in which texts are replaced by codes that are given out as the texts come up. Instructions
with the same key are compared, and collected in groups. Instructions with side effects are never
shared, and long ones are not looked at.
-/

namespace RegisterAllocation

/-- Codes for texts. -/
abbrev CodeTable := Dictionary String Int64

/-- The code of a text. A new text is given the number of texts before it. -/
def CodeTable.code (table : CodeTable) (text : String) : Int64 × CodeTable :=
  match table.get? text with
  | some code => (code, table)
  | none => (Int64.ofNat table.size, table.set text (Int64.ofNat table.size))

/-- The codes of operations with their methods, and of literals. -/
structure CodeTables where
  operations : CodeTable := {}
  literals : CodeTable := {}
deriving Repr

namespace MoveType

/-- The word for a register that holds a value of the given type. It is odd. -/
def registerWord (type : MoveType) (register : Register) : Int64 :=
  (register * 4 + Int64.ofNat type.code) * 2 + 1

/-- The word for a literal with the given code, of the given type. It is even. -/
def literalWord (type : MoveType) (code : Int64) : Int64 :=
  (code * 4 + Int64.ofNat type.code) * 2 + 2

end MoveType

/-- Instructions that are encoded in the same way. -/
structure DuplicateGroup where
  first : InstrId
  /-- The further instructions, in order. -/
  others : List InstrId := []
deriving DecidableEq, Repr

namespace DuplicateGroup

def members (group : DuplicateGroup) : List InstrId := group.first :: group.others

def add (group : DuplicateGroup) (i : InstrId) : DuplicateGroup :=
  { group with others := group.others ++ [i] }

end DuplicateGroup

/-- The state of a search for duplicates. -/
structure DuplicateSearch where
  tables : CodeTables := {}
  /-- The places of groups by the keys of their first members. -/
  places : Dictionary (List Int64) (List Nat) := {}
  groups : List DuplicateGroup := []
deriving Repr

namespace Pool

/-- The most inputs that an instruction with duplicates can have. -/
def maxSharedInputs : Nat := 3

/-- Whether an instruction is a candidate for sharing. -/
def isShareable (instr : Instruction) : Bool :=
  !instr.opcode.hasSideEffects && instr.inputs.length ≤ maxSharedInputs

/-- The key with the given words. The words for missing inputs are zero. -/
def packedKey (operation literal out : Int64) (inputs : List Int64) : List Int64 :=
  operation :: literal :: out :: (inputs ++ List.replicate (maxSharedInputs - inputs.length) 0)

/-- The word for a value in the instruction numbered `number`. -/
def encodeValue (pool : Pool) (placement : Placement) (number : Int64) (literals : CodeTable)
    (v : ValueId) : Except Fault (Int64 × CodeTable) := do
  let type := (pool.value v).type
  match ← pool.operand placement number v with
  | .register register => return (type.registerWord register, literals)
  | .literal literal =>
    let (code, literals) := literals.code literal.text
    return (type.literalWord code, literals)

/-- The words for values. -/
def encodeValues (pool : Pool) (placement : Placement) (number : Int64) (literals : CodeTable) :
    List ValueId → Except Fault (List Int64 × CodeTable)
  | [] => .ok ([], literals)
  | v :: vs => do
    let (word, literals) ← pool.encodeValue placement number literals v
    let (words, literals) ← pool.encodeValues placement number literals vs
    return (word :: words, literals)

/-- The word for an output; zero if there is none. -/
def encodeOut (pool : Pool) (placement : Placement) (number : Int64) (literals : CodeTable) :
    Option ValueId → Except Fault (Int64 × CodeTable)
  | none => .ok (0, literals)
  | some v => pool.encodeValue placement number literals v

/-- The word for the literal of an instruction; zero if there is none. -/
def encodeLiteral (literals : CodeTable) : Option Literal → Int64 × CodeTable
  | none => (0, literals)
  | some literal =>
    let (code, literals) := literals.code literal.text
    (code + 1, literals)

/-- The key of an instruction. -/
def duplicateKey (pool : Pool) (placement : Placement) (tables : CodeTables) (i : InstrId) :
    Except Fault (List Int64 × CodeTables) := do
  let instr := pool.instr i
  let (operation, operations) := tables.operations.code (instr.opcodeName ++ "/" ++ instr.method)
  let (literal, literals) := encodeLiteral tables.literals instr.literal
  let (out, literals) ← pool.encodeOut placement instr.number literals instr.out
  let (inputs, literals) ← pool.encodeValues placement instr.number literals instr.inputs
  return (packedKey operation literal out inputs, { operations, literals })

/-- The first of the given places at which there is a group that an instruction belongs to. -/
def findGroup (pool : Pool) (placement : Placement) (groups : List DuplicateGroup) (i : InstrId) :
    List Nat → Except Fault (Option Nat)
  | [] => .ok none
  | place :: places => do
    match groups[place]? with
    | none => .error .undefined
    | some group =>
      if ← pool.sameEncoding placement group.first i then return some place
      else pool.findGroup placement groups i places

/-- Adds an instruction to the group it belongs to, or to a new one at the end. -/
def addDuplicate (pool : Pool) (placement : Placement) (search : DuplicateSearch) (i : InstrId) :
    Except Fault DuplicateSearch := do
  let (key, tables) ← pool.duplicateKey placement search.tables i
  let places := (search.places.get? key).getD []
  match ← pool.findGroup placement search.groups i places with
  | some place => return { search with tables, groups := search.groups.modify place (·.add i) }
  | none =>
    return {
      tables
      places := search.places.set key (places ++ [search.groups.length])
      groups := search.groups ++ [{ first := i }] }

/-- Collects the candidates among instructions in groups. -/
def addDuplicates (pool : Pool) (placement : Placement) (search : DuplicateSearch) :
    List InstrId → Except Fault DuplicateSearch
  | [] => .ok search
  | i :: is => do
    if isShareable (pool.instr i) then
      let search ← pool.addDuplicate placement search i
      pool.addDuplicates placement search is
    else pool.addDuplicates placement search is

/-- The groups of two or more instructions that are encoded in the same way, in the order of their
first members. -/
def duplicates (pool : Pool) (placement : Placement) (instrs : List InstrId) :
    Except Fault (List (List InstrId)) := do
  let search ← pool.addDuplicates placement {} instrs
  return (search.groups.filter (!·.others.isEmpty)).map (·.members)

end Pool
end RegisterAllocation
