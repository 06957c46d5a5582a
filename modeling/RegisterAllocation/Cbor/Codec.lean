/-!
# Codecs

A codec is an implementation of the concise binary object representation, as far as records need it.
It makes items of numbers, texts, lists and records, writes them as bytes, reads bytes and takes
what it has read apart. Assignments are written and read with any codec.
-/

namespace RegisterAllocation
namespace Cbor

/-- An implementation of the binary object representation with items of the type `ι`. -/
structure Codec (ι : Type) where
  /-- The most elements of an array and fields of a record. -/
  maxElements : Nat
  /-- The most levels of arrays and records within each other. -/
  maxLevels : Nat
  word : Int64 → ι
  text : String → ι
  array : List ι → ι
  /-- The item for a list that is missing. -/
  null : ι
  /-- The record with the given fields, whose keys are their numbers. -/
  record : List (Nat × ι) → ι
  write : ι → List UInt8
  read? : List UInt8 → Option ι
  toWord? : ι → Option Int64
  toText? : ι → Option String
  /-- The elements of an array, or of no array. -/
  toArray? : ι → Option (Option (List ι))
  /-- The fields of a record with numbers for keys, each with its item. -/
  toRecord? : ι → Option (List (Nat × ι))

/-- The fields that have an item. -/
def presentFields {ι : Type} (fields : List (Nat × Option ι)) : List (Nat × ι) :=
  fields.filterMap fun field => field.2.map (field.1, ·)

namespace Codec

variable {ι α : Type} (codec : Codec ι)

/-- The record with the given fields, of which those without an item are left out. -/
def ofFields (fields : List (Nat × Option ι)) : ι := codec.record (presentFields fields)

/-- A list that may be missing. -/
def ofList? (item : α → ι) : Option (List α) → ι
  | some xs => codec.array (xs.map item)
  | none => codec.null

/-- A list as a field that is left out when it is empty. -/
def ofNonempty? (item : α → ι) (xs : Option (List α)) : Option ι :=
  match xs.getD [] with
  | [] => none
  | xs => some (codec.array (xs.map item))

/-- A text as a field that is left out when it is empty. -/
def ofNonemptyText? (s : String) : Option ι := if s = "" then none else some (codec.text s)

/-- Reads a list that may be missing. -/
def toList? (element? : ι → Option α) (item : ι) : Option (Option (List α)) := do
  match ← codec.toArray? item with
  | some items => return some (← items.mapM element?)
  | none => return none

end Codec

/-- Reads a field of a record; a missing field stays empty. -/
def readField? {ι α : Type} (fields : List (Nat × ι)) (number : Nat) (zero : α)
    (read? : ι → Option α) : Option α :=
  match fields.lookup number with
  | some item => read? item
  | none => some zero

end Cbor
end RegisterAllocation
