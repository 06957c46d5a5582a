import RegisterAllocation.Text.Printable
import RegisterAllocation.Text.Hexadecimal

/-!
# Quoted text

Messages show a character or a text between quotes. Printable characters stand for themselves;
the quote, the backslash and everything else are escaped.
-/

namespace RegisterAllocation
namespace Quoted

/-- The one-letter escapes of control characters. -/
def letterEscape? (c : Char) : Option Char :=
  match c.toNat with
  | 7 => some 'a'
  | 8 => some 'b'
  | 9 => some 't'
  | 10 => some 'n'
  | 11 => some 'v'
  | 12 => some 'f'
  | 13 => some 'r'
  | _ => none

/-- A character as it stands between `quote`s. -/
def escape (quote : Char) (c : Char) : List Char :=
  if c = quote || c = '\\' then ['\\', c]
  else if isPrintable c then [c]
  else match letterEscape? c with
    | some letter => ['\\', letter]
    | none =>
      let n := c.toNat
      if n < 0x20 || n = 0x7f then '\\' :: 'x' :: Hexadecimal.padded 2 n
      else if n < 0x10000 then '\\' :: 'u' :: Hexadecimal.padded 4 n
      else '\\' :: 'U' :: Hexadecimal.padded 8 n

/-- A character between single quotes. -/
def char (c : Char) : String := String.ofList ('\x27' :: escape '\x27' c ++ ['\x27'])

/-- A text between double quotes. -/
def string (s : String) : String :=
  String.ofList ('"' :: s.toList.flatMap (escape '"') ++ ['"'])

end Quoted
end RegisterAllocation
