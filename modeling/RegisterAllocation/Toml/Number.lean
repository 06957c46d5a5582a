import RegisterAllocation.Text.Decimal
import RegisterAllocation.Text.Hexadecimal

/-!
# Numbers of settings files

Integers are words in base ten with an optional sign, or in base two, eight or sixteen with a mark
and no sign. Floating-point numbers have a fraction or an exponent. Underscores may stand between
digits, and numbers have no leading zeros.
-/

namespace RegisterAllocation
namespace Toml

/-- Whether every underscore stands behind a digit, and the last character is a digit. Letters count
as digits as far as they are hexadecimal ones. -/
def underscoresFit (afterDigit : Bool) : List Char → Bool
  | [] => afterDigit
  | c :: cs =>
    if c = '_' then afterDigit && underscoresFit false cs
    else underscoresFit (Hexadecimal.digitValue? c).isSome cs

/-- Whether a number starts with a zero that it does not need. -/
def hasLeadingZero : List Char → Bool
  | '0' :: c :: _ => !(c = 'b' || c = 'o' || c = 'x')
  | sign :: '0' :: _ :: _ => sign = '+' || sign = '-'
  | _ => false

/-- The text of a number without its underscores. -/
def withoutUnderscores (text : List Char) : List Char := text.filter (· ≠ '_')

/-- The value of a digit sequence in a base. -/
def valueInBase? (base : Nat) (digits : List Char) : Option Nat :=
  digits.foldlM (fun n c => do
    let d ← Hexadecimal.digitValue? c
    if d < base then some (base * n + d) else none) 0

/-- The base that a mark behind a leading zero stands for. -/
def baseOfMark? : Char → Option Nat
  | 'b' => some 2
  | 'o' => some 8
  | 'x' => some 16
  | _ => none

/-- Reads an integer; numbers that are no words are refused. -/
def integer? (text : List Char) : Option Int64 :=
  if !underscoresFit false text || hasLeadingZero text then none
  else
    let plain := withoutUnderscores text
    match plain with
    | '0' :: mark :: digits =>
      match baseOfMark? mark with
      | some base => do
        let n ← valueInBase? base digits
        if n < 0x8000000000000000 then some (Int64.ofNat n) else none
      | none => Decimal.toWord? plain
    | _ => Decimal.toWord? plain

/-! ## Floating-point numbers -/

/-- Whether a character divides the parts of a floating-point number. -/
def dividesFloat (c : Char) : Bool := c = '.' || c = 'e' || c = 'E'

/-- The parts of a text between the characters with property `p`. -/
def partsBetween (p : Char → Bool) : List Char → List (List Char)
  | [] => [[]]
  | c :: cs =>
    if p c then [] :: partsBetween p cs
    else match partsBetween p cs with
      | [] => [[c]]
      | part :: parts => (c :: part) :: parts

/-- Whether every point has a digit behind it. -/
def pointsFit : List Char → Bool
  | [] => true
  | '.' :: cs => (match cs with
    | [] => false
    | c :: _ => c.isDigit) && pointsFit cs
  | _ :: cs => pointsFit cs

/-- The least number that is too large: halfway between the greatest floating-point number and the
next power of two. -/
def floatLimit : Nat := (1 <<< 1024) - (1 <<< 970)

/-- Whether `mantissa * 10 ^ exponent` is small enough to be a floating-point number. Numbers that
are far off either way are told by their digits. -/
def floatFits (mantissa : Nat) (exponent : Int) : Bool :=
  let size : Int := exponent + (Decimal.digits mantissa).length
  if mantissa = 0 || size < 300 then true
  else if 400 < size then false
  else mantissa * Nat.pow 10 exponent.toNat < floatLimit * Nat.pow 10 (-exponent).toNat

/-- The text behind a sign, if there is one. -/
def dropSign : List Char → List Char
  | '+' :: cs => cs
  | '-' :: cs => cs
  | cs => cs

/-- Whether a text is a decimal number with an optional fraction and an optional exponent, and not
too large. -/
def isDecimalFloat (text : List Char) : Bool :=
  let unsigned := dropSign text
  let whole := unsigned.takeWhile Char.isDigit
  let afterWhole := unsigned.dropWhile Char.isDigit
  let fraction := match afterWhole with
    | '.' :: cs => cs.takeWhile Char.isDigit
    | _ => []
  let afterFraction := match afterWhole with
    | '.' :: cs => cs.dropWhile Char.isDigit
    | cs => cs
  match Decimal.toNat? (whole ++ fraction), afterFraction with
  | some mantissa, [] => floatFits mantissa (-fraction.length)
  | some mantissa, mark :: exponent =>
    (mark = 'e' || mark = 'E') &&
    match Decimal.toInt? exponent with
    | some scale => floatFits mantissa (scale - fraction.length)
    | none => false
  | none, _ => false

/-- Whether a text is a floating-point number. -/
def isFloat (text : List Char) : Bool :=
  let parts := (partsBetween dividesFloat text).filter (!·.isEmpty)
  parts.all (underscoresFit false)
  && !hasLeadingZero (parts.headD [])
  && pointsFit text
  && isDecimalFloat (withoutUnderscores text)

end Toml
end RegisterAllocation
