/-!
# Decimal numbers

How whole numbers are written and read: digits without leading zeros, a minus sign in front of
negative numbers, and for reading also a plus sign and leading zeros.
-/

namespace RegisterAllocation
namespace Decimal

/-! ## Writing -/

/-- The character of a digit below ten. -/
def digitChar (d : Nat) : Char := Char.ofNat (48 + d)

/-- The digits of a number, most significant first. -/
def digits (n : Nat) : List Char :=
  if n < 10 then [digitChar n] else digits (n / 10) ++ [digitChar (n % 10)]

def ofNat (n : Nat) : String := String.ofList (digits n)

def ofInt : Int → String
  | .ofNat n => ofNat n
  | .negSucc n => "-" ++ ofNat (n + 1)

/-- The decimal text of a word, read as a signed number. -/
def ofWord (n : Int64) : String := ofInt n.toInt

/-! ## Reading -/

/-- The value of an ASCII digit. -/
def digitValue? (c : Char) : Option Nat :=
  if 48 ≤ c.toNat && c.toNat ≤ 57 then some (c.toNat - 48) else none

/-- Reads digits after the number `n` that stands in front of them. -/
def extend? (n : Nat) : List Char → Option Nat
  | [] => some n
  | c :: cs => do extend? (10 * n + (← digitValue? c)) cs

/-- Reads one or more digits. -/
def toNat? : List Char → Option Nat
  | [] => none
  | cs => extend? 0 cs

/-- Reads digits with an optional sign. -/
def toInt? : List Char → Option Int
  | '-' :: cs => (toNat? cs).map fun n => -(n : Int)
  | '+' :: cs => (toNat? cs).map fun n => (n : Int)
  | cs => (toNat? cs).map fun n => (n : Int)

/-- Reads digits with an optional sign; the number has to fit in a signed word. -/
def toWord? (cs : List Char) : Option Int64 := do
  let n ← toInt? cs
  if -0x8000000000000000 ≤ n ∧ n < 0x8000000000000000 then some (Int64.ofInt n) else none

end Decimal
end RegisterAllocation
