import RegisterAllocation.Literal.Numeral
import RegisterAllocation.Literal.Binary
import RegisterAllocation.Text.Hexadecimal
import RegisterAllocation.Fault

/-!
# Literals

The numeric constants of a program: integers of any size, and real numbers. A real number of
moderate magnitude is an exact fraction; one that is very large or very small is a binary number of
512 bits. A text that spells no number is the unknown literal, which equals nothing.
-/

namespace RegisterAllocation

/-- A numeric constant. -/
inductive Literal where
  | int (value : Int)
  /-- A real number as a fraction in lowest terms. -/
  | ratio (numerator : Int) (denominator : Nat)
  /-- A real number with a mantissa of at most 512 bits, which is odd. -/
  | binary (negative : Bool) (size : Binary)
  | unknown
deriving DecidableEq, Repr

/-- The kinds of constants. -/
inductive LiteralKind where
  | int
  | float
  | unknown
deriving DecidableEq, Repr

namespace Literal

def kind : Literal → LiteralKind
  | int _ => .int
  | ratio .. | binary .. => .float
  | unknown => .unknown

/-! ## Reading -/

/-- The significant bits of a binary number. -/
def precision : Nat := 512

/-- Numbers with magnitudes between `-exactMagnitude` and `exactMagnitude` are exact. -/
def exactMagnitude : Int := 4096

/-- The fraction `± value * 2 ^ twos * 5 ^ fives`. -/
def ofPowers (negative : Bool) (value : Nat) (twos fives : Int) : Literal :=
  let above := (value * Nat.pow 5 fives.toNat) <<< twos.toNat
  let below := (Nat.pow 5 (-fives).toNat) <<< (-twos).toNat
  let common := above.gcd below
  let numerator : Int := (above / common : Nat)
  .ratio (if negative then -numerator else numerator) (below / common)

/-- The size of a nonzero numeral as a binary number: `none` if it is infinite, and a zero mantissa
if it vanishes. -/
def binarySize? (n : Numeral) : Option Binary :=
  let mantissa : Binary := ⟨n.value, n.twos⟩
  let fives := n.fives
  if fives = 0 then
    let rounded := mantissa.round precision
    if rounded.magnitude ≤ Binary.greatestMagnitude then some rounded else none
  else if 0 < fives then
    Binary.mul precision (some mantissa) (Binary.powFive fives.toNat)
  else match Binary.powFive (-fives).toNat with
    | none => some ⟨0, 0⟩
    | some power =>
      let quotient := mantissa.div precision power
      some (if quotient.magnitude < Binary.leastMagnitude then ⟨0, 0⟩ else quotient)

/-- The real number that a numeral stands for. -/
def ofNumeral (n : Numeral) : Literal :=
  if n.value = 0 then .ratio 0 1
  else
    let magnitude := Binary.magnitude ⟨n.value, n.twos⟩
    if magnitude < Binary.leastMagnitude || Binary.greatestMagnitude < magnitude then .unknown
    else match binarySize? n with
      | none => .unknown
      | some size =>
        if size.mantissa = 0 then .ratio 0 1
        else if -exactMagnitude < size.magnitude && size.magnitude < exactMagnitude then
          ofPowers n.negative n.value n.twos n.fives
        else .binary n.negative size.reduce

/-- The real number that a text spells. -/
def ofFloatText (text : List Char) : Literal :=
  match Numeral.ofChars? text with
  | some n => ofNumeral n
  | none => .unknown

/-- The integer that a text spells. -/
def ofIntText (text : List Char) : Literal :=
  match Numeral.toInt? text with
  | some n => .int n
  | none => .unknown

/-! ## Writing -/

/-- The hexadecimal digits behind the point of a number between a half and one. -/
def mantissaDigits (mantissa : Nat) : List Char :=
  let bits := Binary.bitLength mantissa
  Hexadecimal.digits (mantissa <<< ((4 - bits % 4) % 4))

/-- The exact text of a constant. -/
def text : Literal → String
  | int value => Decimal.ofInt value
  | ratio numerator denominator =>
    if denominator = 1 then Decimal.ofInt numerator
    else Decimal.ofInt numerator ++ "/" ++ Decimal.ofNat denominator
  | binary negative size =>
    let magnitude := size.magnitude
    (if negative then "-" else "") ++ "0x." ++ String.ofList (mantissaDigits size.mantissa) ++ "p"
      ++ (if 0 ≤ magnitude then "+" else "") ++ Decimal.ofInt magnitude
  | unknown => "unknown"

/-! ## Comparing -/

/-- Whether two constants are the same number and of the same kind. The unknown constant is the same
as nothing. -/
def same : Literal → Literal → Bool
  | int x, int y => x = y
  | ratio n d, ratio n' d' => n = n' && d = d'
  | binary s x, binary s' y => s = s' && x = y
  | _, _ => false

/-- Whether an integer lies in the range of words of the given number of bits, with the bound
`2 ^ (bits - 1)` computed in 64 bits: a shift by 63 gives the least word and a longer one zero, so
no integer fits in 64 bits or more. A shift by a negative amount has no meaning. -/
def fitsInBits (literal : Option Literal) (bits : Int64) : Except Fault Bool :=
  match literal with
  | some (int n) =>
    if n < -0x8000000000000000 ∨ 0x8000000000000000 ≤ n then .ok false
    else
      let shift := bits - 1
      if shift < 0 then .error .undefined
      else
        let limit : Int64 := if shift < 64 then (1 : Int64) <<< shift else 0
        .ok (decide (-limit ≤ Int64.ofInt n) && decide (Int64.ofInt n < limit))
  | _ => .ok false

end Literal
end RegisterAllocation
