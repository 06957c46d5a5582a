import RegisterAllocation.Cbor.Codec
import RegisterAllocation.Cbor.Reader
import RegisterAllocation.Text.Decimal
import RegisterAllocation.Text.Utf8

/-!
# The standard codec

The codec of data items. Its written form is canonical. Its reading is liberal: null counts as
nothing, tags that suit their content are passed over, the keys of fields may be numbers or the
texts of numbers, and of fields that are given twice the first counts.
-/

namespace RegisterAllocation
namespace Cbor

/-- The number of the tag that marks data as such and has no further meaning. -/
def selfDescribed : Nat := 55799

/-- Whether the content of a tag is of the kind that the tag asks for: text for dates, numbers for
times and bytes for big numbers. -/
def Item.suitsTag (content : Item) (number : Nat) : Bool :=
  match number, content with
  | 0, .text _ => true
  | 1, .unsigned _ | 1, .negative _ | 1, .float _ => true
  | 2, .bytes _ | 3, .bytes _ => true
  | number, _ => 3 < number

/-- An item without its tags. Each tag has to suit its content, and the tags of big numbers make
numbers of bytes. -/
def Item.untagged? : Item → Option Item
  | .tag number content =>
    if number = selfDescribed then content.untagged?
    else if content.suitsTag number then
      match number, content with
      | 2, .bytes chunks => some (.unsigned (ofBigEndian chunks.flatten))
      | 3, .bytes chunks => some (.negative (ofBigEndian chunks.flatten))
      | _, _ => content.untagged?
    else none
  | item => some item

def Item.isNull : Item → Bool
  | .simple n => n = 22 || n = 23
  | _ => false

/-- Reads an item without its tags; null is read as `zero`. -/
def Item.fill? {α : Type} (zero : α) (read? : Item → Option α) (item : Item) : Option α := do
  let content ← item.untagged?
  if content.isNull then some zero else read? content

/-- A number as a word, if it is one. -/
def word? (n : Int) : Option Int64 :=
  if -0x8000000000000000 ≤ n ∧ n < 0x8000000000000000 then some (Int64.ofInt n) else none

/-- Reads a number. Simple values other than truth values count as numbers. -/
def Item.toWord? : Item → Option Int64
  | .unsigned n => word? n
  | .negative n => word? (-1 - n)
  | .simple n => if n = 20 ∨ n = 21 then none else word? n
  | _ => none

/-- Joins the chunks of a text; each has to be a text by itself. -/
def textOfChunks? (chunks : List (List UInt8)) : Option String := do
  let parts ← chunks.mapM Utf8.strict?
  some (String.ofList parts.flatten)

def Item.toText? : Item → Option String
  | .text chunks => textOfChunks? chunks
  | _ => none

def Item.toArray? : Item → Option (Option (List Item))
  | .array items => some (some items)
  | _ => none

/-- The field that a key refers to, if any; keys of other kinds are refused. Negative keys have to
be words. -/
def Item.key? : Item → Option (Option Nat)
  | .text chunks => do
    let text ← textOfChunks? chunks
    some ((Decimal.toNat? text.toList).filter fun n => Decimal.ofNat n = text)
  | .unsigned n => some (some n)
  | .negative n => if n < 0x8000000000000000 then some none else none
  | _ => none

/-- The fields of a record with their first items; none if a key is refused. -/
def fields? (seen : List (Nat × Item)) : List Item → Option (List (Nat × Item))
  | key :: item :: rest => do
    match ← key.key? with
    | some number =>
      if (seen.lookup number).isSome then fields? seen rest
      else fields? (seen ++ [(number, item)]) rest
    | none => fields? seen rest
  | _ => some seen

def Item.toFields? : Item → Option (List (Nat × Item))
  | .map entries => fields? [] entries
  | _ => none

/-- The keys and items of fields, alternating. -/
def entriesOf (fields : List (Nat × Item)) : List Item :=
  fields.flatMap fun (number, item) => [.unsigned number, item]

/-- The codec of data items. -/
def standard : Codec Item where
  maxElements := maxCount
  maxLevels := maxDepth
  word := Item.ofWord
  text := Item.ofString
  array := Item.array
  null := Item.null
  record fields := Item.map (entriesOf fields)
  write := Item.write
  read? := Item.read?
  toWord? := Item.fill? 0 Item.toWord?
  toText? := Item.fill? "" Item.toText?
  toArray? := Item.fill? none Item.toArray?
  toRecord? := Item.fill? [] Item.toFields?

end Cbor
end RegisterAllocation
