/-!
# Hexadecimal numbers

Lower-case hexadecimal digits, of a fixed width for escapes and as short as possible for the
mantissa of a number.
-/

namespace RegisterAllocation
namespace Hexadecimal

/-- The character of a digit below sixteen. -/
def digitChar (d : Nat) : Char := Char.ofNat (if d < 10 then 48 + d else 87 + d)

/-- The digits of a number, most significant first. -/
def digits (n : Nat) : List Char :=
  if n < 16 then [digitChar n] else digits (n / 16) ++ [digitChar (n % 16)]

/-- The last `width` digits of a number, with leading zeros. -/
def padded : (width : Nat) → Nat → List Char
  | 0, _ => []
  | width + 1, n => padded width (n / 16) ++ [digitChar (n % 16)]

/-- The value of a digit in either case. -/
def digitValue? (c : Char) : Option Nat :=
  let n := c.toNat
  if 48 ≤ n && n ≤ 57 then some (n - 48)
  else if 97 ≤ n && n ≤ 102 then some (n - 87)
  else if 65 ≤ n && n ≤ 70 then some (n - 55)
  else none

/-- The value of a digit sequence; `none` if some character is not a digit. -/
def value? (cs : List Char) : Option Nat :=
  cs.foldlM (fun n c => do return 16 * n + (← digitValue? c)) 0

end Hexadecimal
end RegisterAllocation
