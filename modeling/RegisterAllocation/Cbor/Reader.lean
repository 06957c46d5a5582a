import RegisterAllocation.Cbor.Item

/-!
# Reading data items

`Item.read?` accepts exactly one well-formed item. Heads may be longer than necessary, and strings,
arrays and maps may have indefinite lengths. Items are nested at most 32 levels deep, where arrays
and maps open a level, and so does every tag that directly follows a tag. Arrays and maps have at
most 131072 elements or pairs.
-/

namespace RegisterAllocation
namespace Cbor

/-- The argument of a head. -/
inductive Argument where
  /-- An argument within the first byte. -/
  | short (n : Nat)
  /-- An argument in the bytes that follow. -/
  | long (payload : List UInt8)
  | indefinite
deriving DecidableEq, Repr

namespace Argument

/-- The number that an argument gives. -/
def value : Argument → Nat
  | short n => n
  | long payload => ofBigEndian payload
  | indefinite => 0

end Argument

/-- The most levels of nested items. -/
def maxDepth : Nat := 32

/-- The most elements of an array and pairs of a map. -/
def maxCount : Nat := 131072

/-- The byte that ends items of indefinite length. -/
def breakByte : UInt8 := 0xff

/-- Takes a number of bytes from the front. -/
def take? (count : Nat) (bs : List UInt8) : Option (List UInt8 × List UInt8) :=
  if count ≤ bs.length then some (bs.take count, bs.drop count) else none

/-- Reads a head. -/
def readHead? : List UInt8 → Option (Major × Argument × List UInt8)
  | [] => none
  | byte :: rest =>
    let major := Major.ofCode (byte.toNat / 32)
    let short := byte.toNat % 32
    if short < 24 then some (major, .short short, rest)
    else if short < 28 then do
      let (payload, rest) ← take? (1 <<< (short - 24)) rest
      if major = .primitive ∧ short = 24 ∧ ofBigEndian payload < 32 then none
      else some (major, .long payload, rest)
    else if short = 31 ∧ major ∈ [.bytes, .text, .array, .map] then
      some (major, .indefinite, rest)
    else none

/-- A primitive item with the given argument: a floating-point number if it has more than one
byte. -/
def Item.ofPrimitive : Argument → Item
  | .short n => .simple n
  | .long payload => if payload.length = 1 then .simple (ofBigEndian payload) else .float payload
  | .indefinite => .simple 0

/-- Reads the chunks of a string of indefinite length, up to the end. -/
def readChunks? (major : Major) : (fuel : Nat) → List UInt8 →
    Option (List (List UInt8) × List UInt8)
  | 0, _ => none
  | fuel + 1, bs =>
    if bs.head? = some breakByte then some ([], bs.tail)
    else do
      let (chunkMajor, argument, rest) ← readHead? bs
      if chunkMajor ≠ major ∨ argument = .indefinite then none
      else do
        let (chunk, rest) ← take? argument.value rest
        let (chunks, rest) ← readChunks? major fuel rest
        some (chunk :: chunks, rest)

/-- Reads a string. -/
def readString? (major : Major) (argument : Argument) (bs : List UInt8) :
    Option (List (List UInt8) × List UInt8) :=
  if argument = .indefinite then readChunks? major (bs.length + 1) bs
  else do
    let (chunk, rest) ← take? argument.value bs
    some ([chunk], rest)

/-- Whether bytes start with a tag. -/
def startsWithTag (bs : List UInt8) : Bool :=
  match bs with
  | [] => false
  | byte :: _ => Major.ofCode (byte.toNat / 32) = .tag

mutual

/-- Reads an item. -/
def readItem? (fuel depth : Nat) (bs : List UInt8) : Option (Item × List UInt8) :=
  match fuel with
  | 0 => none
  | fuel + 1 => do
    let (major, argument, rest) ← readHead? bs
    match major with
    | .unsigned => some (.unsigned argument.value, rest)
    | .negative => some (.negative argument.value, rest)
    | .bytes => do
      let (chunks, rest) ← readString? .bytes argument rest
      some (.bytes chunks, rest)
    | .text => do
      let (chunks, rest) ← readString? .text argument rest
      some (.text chunks, rest)
    | .array => do
      if maxDepth ≤ depth then none
      let (items, rest) ←
        if argument = .indefinite then readUntilBreak? fuel (depth + 1) rest
        else if maxCount < argument.value then none
        else readItems? fuel (depth + 1) argument.value rest
      if maxCount < items.length then none else some (.array items, rest)
    | .map => do
      if maxDepth ≤ depth then none
      let (entries, rest) ←
        if argument = .indefinite then readUntilBreak? fuel (depth + 1) rest
        else if maxCount < argument.value then none
        else readItems? fuel (depth + 1) (2 * argument.value) rest
      if 2 * maxCount < entries.length ∨ entries.length % 2 = 1 then none
      else some (.map entries, rest)
    | .tag => do
      let nested := startsWithTag rest
      if nested ∧ maxDepth ≤ depth then none
      let (content, rest) ← readItem? fuel (if nested then depth + 1 else depth) rest
      some (.tag argument.value content, rest)
    | .primitive => some (.ofPrimitive argument, rest)

/-- Reads a number of items. -/
def readItems? (fuel depth count : Nat) (bs : List UInt8) : Option (List Item × List UInt8) :=
  match fuel, count with
  | _, 0 => some ([], bs)
  | 0, _ + 1 => none
  | fuel + 1, count + 1 => do
    let (item, rest) ← readItem? fuel depth bs
    let (items, rest) ← readItems? fuel depth count rest
    some (item :: items, rest)

/-- Reads items up to the end of an item of indefinite length. -/
def readUntilBreak? (fuel depth : Nat) (bs : List UInt8) : Option (List Item × List UInt8) :=
  match fuel with
  | 0 => none
  | fuel + 1 =>
    if bs.head? = some breakByte then some ([], bs.tail)
    else do
      let (item, rest) ← readItem? fuel depth bs
      let (items, rest) ← readUntilBreak? fuel depth rest
      some (item :: items, rest)

end

/-- Reads bytes that are exactly one item. Every item takes at least one byte, so the bytes bound
the steps. -/
def Item.read? (bs : List UInt8) : Option Item :=
  match readItem? (2 * bs.length + 2) 0 bs with
  | some (item, []) => some item
  | _ => none

end Cbor
end RegisterAllocation
