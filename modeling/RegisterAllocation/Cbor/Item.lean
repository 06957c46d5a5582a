/-!
# Data items of the binary object representation

The items that the concise binary object representation can express, and their written form. Written
items have the shortest heads and definite lengths.

A head is a byte with a major type and a short argument, followed by up to eight bytes of a longer
argument.
-/

namespace RegisterAllocation
namespace Cbor

/-- A data item. -/
inductive Item where
  | unsigned (n : Nat)
  /-- The number `-1 - n`. -/
  | negative (n : Nat)
  /-- A byte string, in one or more chunks. -/
  | bytes (chunks : List (List UInt8))
  /-- A text string, in one or more chunks. Its bytes may be no text. -/
  | text (chunks : List (List UInt8))
  | array (items : List Item)
  /-- A map; keys and values alternate. -/
  | map (entries : List Item)
  | tag (number : Nat) (content : Item)
  /-- A simple value, such as a truth value or nothing. -/
  | simple (n : Nat)
  /-- A floating-point number in two, four or eight bytes. -/
  | float (payload : List UInt8)
deriving Repr

/-- The kinds of items, in the order of their codes. -/
inductive Major where
  | unsigned
  | negative
  | bytes
  | text
  | array
  | map
  | tag
  | primitive
deriving DecidableEq, Repr

namespace Major

/-- The code of a kind. -/
def code : Major → Nat
  | unsigned => 0
  | negative => 1
  | bytes => 2
  | text => 3
  | array => 4
  | map => 5
  | tag => 6
  | primitive => 7

/-- The kind with a code; codes have three bits. -/
def ofCode (code : Nat) : Major :=
  match code % 8 with
  | 0 => unsigned
  | 1 => negative
  | 2 => bytes
  | 3 => text
  | 4 => array
  | 5 => map
  | 6 => tag
  | _ => primitive

end Major

/-- A number in `count` bytes, the most significant first. -/
def bigEndian : (count : Nat) → Nat → List UInt8
  | 0, _ => []
  | count + 1, n => bigEndian count (n / 256) ++ [UInt8.ofNat n]

/-- The number written in bytes, the most significant first. -/
def ofBigEndian (bytes : List UInt8) : Nat :=
  bytes.foldl (fun n byte => n * 256 + byte.toNat) 0

def initialByte (major : Major) (short : Nat) : UInt8 := UInt8.ofNat (major.code * 32 + short)

/-- The shortest head with an argument. -/
def head (major : Major) (n : Nat) : List UInt8 :=
  if n < 24 then [initialByte major n]
  else if n < 0x100 then initialByte major 24 :: bigEndian 1 n
  else if n < 0x10000 then initialByte major 25 :: bigEndian 2 n
  else if n < 0x100000000 then initialByte major 26 :: bigEndian 4 n
  else initialByte major 27 :: bigEndian 8 n

namespace Item

/-- The short argument for the payload of a floating-point number. -/
def floatShort (payload : List UInt8) : Nat :=
  match payload.length with
  | 2 => 25
  | 4 => 26
  | _ => 27

mutual

/-- The written form of an item. -/
def write : Item → List UInt8
  | unsigned n => head .unsigned n
  | negative n => head .negative n
  | bytes chunks => head .bytes chunks.flatten.length ++ chunks.flatten
  | text chunks => head .text chunks.flatten.length ++ chunks.flatten
  | array items => head .array items.length ++ writeAll items
  | map entries => head .map (entries.length / 2) ++ writeAll entries
  | tag number content => head .tag number ++ content.write
  | simple n => head .primitive n
  | float payload => initialByte .primitive (floatShort payload) :: payload

/-- The written forms of items, one after another. -/
def writeAll : List Item → List UInt8
  | [] => []
  | item :: items => item.write ++ writeAll items

end

def ofInt : Int → Item
  | .ofNat n => .unsigned n
  | .negSucc n => .negative n

def ofWord (n : Int64) : Item := ofInt n.toInt

def ofString (s : String) : Item := .text [s.toUTF8.data.toList]

/-- The item that stands for nothing. -/
def null : Item := .simple 22

end Item
end Cbor
end RegisterAllocation
