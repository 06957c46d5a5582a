import RegisterAllocation.Text.Hexadecimal

/-!
# Keys of settings files

A key is a path of names. Names made of letters, digits, underscores and hyphens can be written
bare; all others are written between double quotes.
-/

namespace RegisterAllocation
namespace Toml

abbrev Key := List String

/-- Whether a character can stand in a bare name. -/
def isBare (c : Char) : Bool := c.isAlphanum || c = '_' || c = '-'

/-- The one-letter escapes of quoted names. -/
def nameEscape? (c : Char) : Option Char :=
  match c.toNat with
  | 8 => some 'b'
  | 9 => some 't'
  | 10 => some 'n'
  | 12 => some 'f'
  | 13 => some 'r'
  | 34 => some '"'
  | 92 => some '\\'
  | _ => none

/-- A character of a quoted name. -/
def escapeInName (c : Char) : List Char :=
  match nameEscape? c with
  | some letter => ['\\', letter]
  | none =>
    if c.toNat < 0x20 || c.toNat = 0x7f then '\\' :: 'u' :: Hexadecimal.padded 4 c.toNat else [c]

def nameText (name : String) : String :=
  if name ≠ "" ∧ name.toList.all isBare then name
  else String.ofList ('"' :: name.toList.flatMap escapeInName ++ ['"'])

def Key.text (key : Key) : String := ".".intercalate (key.map nameText)

end Toml
end RegisterAllocation
