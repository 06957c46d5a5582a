import RegisterAllocation.Text.Decimal

/-!
# Numerals

How numbers are written in a program: an optional sign, a base prefix, digits with single
underscores between them, and for the general form also a radix point and an exponent. The exponent
mark `e` scales by powers of ten and `p` by powers of two, in every base.

A numeral is the written form taken apart. No arithmetic is done here beyond reading digits.
-/

namespace RegisterAllocation

/-- The digits of a numeral: the number they spell in their base and how many of them stand
behind the radix point. -/
structure DigitRun where
  /-- The number that the digits spell, the point left out. -/
  value : Nat
  /-- The number of digits. -/
  count : Nat
  /-- The number of digits in front of the point, if there is one. -/
  point : Option Nat
  /-- Whether an underscore may follow: the last character was a digit or a base prefix. -/
  afterDigit : Bool
  /-- Whether the last character was an underscore. -/
  afterSeparator : Bool
  /-- Whether some underscore does not follow a digit. -/
  misplaced : Bool
deriving DecidableEq, Repr

/-- A number as it is written, `± value * base ^ -fraction * scale ^ exponent`. -/
structure Numeral where
  negative : Bool
  base : Nat
  value : Nat
  fraction : Nat
  scale : Nat
  exponent : Int
deriving DecidableEq, Repr

namespace DigitRun

/-- The value of a digit in bases up to sixteen and beyond, `none` for other characters. -/
def digitValue? (c : Char) : Option Nat :=
  let n := c.toNat
  if 48 ≤ n && n ≤ 57 then some (n - 48)
  else if 97 ≤ n && n ≤ 122 then some (n - 87)
  else if 65 ≤ n && n ≤ 90 then some (n - 55)
  else none

/-- The start of a run, after a base prefix or leading zero if `afterDigit`. -/
def start (count : Nat) (afterDigit : Bool) : DigitRun :=
  { value := 0, count, point := none, afterDigit, afterSeparator := false, misplaced := false }

/-- Reads digits in `base`, underscores and, if `pointAllowed`, one radix point, as far as they
go. -/
def read (base : Nat) (pointAllowed : Bool) (run : DigitRun) : List Char → DigitRun × List Char
  | [] => (run, [])
  | c :: cs =>
    if c = '.' && pointAllowed then
      read base false
        { run with point := some run.count, afterDigit := false, afterSeparator := false,
                   misplaced := run.misplaced || run.afterSeparator } cs
    else if c = '_' then
      read base pointAllowed
        { run with afterDigit := false, afterSeparator := true,
                   misplaced := run.misplaced || !run.afterDigit } cs
    else match digitValue? c with
      | none => (run, c :: cs)
      | some d =>
        if d < base then
          read base pointAllowed
            { run with value := base * run.value + d, count := run.count + 1,
                       afterDigit := true, afterSeparator := false } cs
        else (run, c :: cs)

/-- Whether every underscore stands between digits. -/
def separated (run : DigitRun) : Bool := !run.misplaced && !run.afterSeparator

/-- The number of digits behind the radix point. -/
def fraction (run : DigitRun) : Nat :=
  match run.point with
  | none => 0
  | some before => run.count - before

end DigitRun

namespace Numeral

/-- The base that a letter after a leading zero stands for. -/
def prefixBase? : Char → Option Nat
  | 'b' | 'B' => some 2
  | 'o' | 'O' => some 8
  | 'x' | 'X' => some 16
  | _ => none

/-- Takes a sign off. -/
def sign : List Char → Bool × List Char
  | '-' :: cs => (true, cs)
  | '+' :: cs => (false, cs)
  | cs => (false, cs)

/-- Reads the digits of a numeral with a radix point allowed; a leading zero does not change the
base. Also gives the base. -/
def mantissa? (cs : List Char) : Option (Nat × DigitRun × List Char) :=
  let (base, run, rest) : Nat × DigitRun × List Char :=
    match cs with
    | '0' :: c :: rest =>
      match prefixBase? c with
      | some base => (base, DigitRun.read base true (.start 0 true) rest)
      | none => (10, DigitRun.read 10 true (.start 1 true) (c :: rest))
    | cs => (10, DigitRun.read 10 true (.start 0 false) cs)
  if run.separated && 0 < run.count then some (base, run, rest) else none

/-- Reads the digits of a whole number; a leading zero in front of further characters means base
eight. -/
def whole? (cs : List Char) : Option (Nat × List Char) :=
  match cs with
  | '0' :: c :: rest =>
    match prefixBase? c with
    | some base =>
      let (run, rest) := DigitRun.read base false (.start 0 true) rest
      if run.separated && 0 < run.count then some (run.value, rest) else none
    | none =>
      let (run, rest) := DigitRun.read 8 false (.start 0 true) (c :: rest)
      if run.separated then some (run.value, rest) else none
  | cs =>
    let (run, rest) := DigitRun.read 10 false (.start 0 false) cs
    if run.separated && 0 < run.count then some (run.value, rest) else none

/-- The base of the powers that an exponent mark stands for. -/
def exponentBase? : Char → Option Nat
  | 'e' | 'E' => some 10
  | 'p' | 'P' => some 2
  | _ => none

/-- Reads an exponent, which has to fit in a signed word. No mark means no scaling. -/
def exponent? : List Char → Option (Nat × Int × List Char)
  | [] => some (10, 0, [])
  | c :: cs =>
    match exponentBase? c with
    | none => some (10, 0, c :: cs)
    | some scale =>
      let (negative, cs) := sign cs
      let (run, rest) := DigitRun.read 10 false (.start 0 false) cs
      let exponent : Int := if negative then -(run.value : Int) else run.value
      if run.separated && 0 < run.count &&
          -0x8000000000000000 ≤ exponent && exponent < 0x8000000000000000 then
        some (scale, exponent, rest)
      else none

/-- Takes a numeral apart; all of the text has to belong to it. -/
def ofChars? (cs : List Char) : Option Numeral := do
  let (negative, cs) := sign cs
  let (base, run, cs) ← mantissa? cs
  let (scale, exponent, cs) ← exponent? cs
  if cs.isEmpty then
    some { negative, base, value := run.value, fraction := run.fraction, scale, exponent }
  else none

/-- The integer that a whole-number text spells. -/
def toInt? (cs : List Char) : Option Int := do
  let (negative, cs) := sign cs
  let (value, cs) ← whole? cs
  if cs.isEmpty then some (if negative then -(value : Int) else value) else none

/-- The exponent of two in `value * 2 ^ _ * 5 ^ _`. -/
def twos (n : Numeral) : Int :=
  let digitBits : Int := match n.base with
    | 16 => 4
    | 8 => 3
    | _ => 1
  n.exponent - digitBits * n.fraction

/-- The exponent of five in `value * 2 ^ _ * 5 ^ _`. -/
def fives (n : Numeral) : Int :=
  (if n.scale = 10 then n.exponent else 0) - (if n.base = 10 then (n.fraction : Int) else 0)

end Numeral
end RegisterAllocation
