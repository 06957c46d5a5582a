import RegisterAllocation.Text.Decimal

/-!
# Dates and times of settings files

A date, a time, or both with or without an offset from universal time. Seconds may be missing and
may have a fraction. Nothing is computed from dates; they only have to exist.
-/

namespace RegisterAllocation
namespace Toml

/-- Reads exactly `count` digits. -/
def readDigits? (count : Nat) (cs : List Char) : Option (Nat × List Char) :=
  if (cs.take count).length = count then do return (← Decimal.toNat? (cs.take count), cs.drop count)
  else none

/-- Reads a mark. -/
def readMark? (mark : Char) : List Char → Option (List Char)
  | [] => none
  | c :: cs => if c = mark then some cs else none

def isLeapYear (year : Nat) : Bool := year % 4 = 0 && (year % 100 ≠ 0 || year % 400 = 0)

def daysInMonth (year month : Nat) : Nat :=
  if month = 2 then (if isLeapYear year then 29 else 28)
  else if month ∈ [4, 6, 9, 11] then 30
  else 31

/-- Reads a date and gives the text behind it. -/
def readDate? (cs : List Char) : Option (List Char) := do
  let (year, cs) ← readDigits? 4 cs
  let (month, cs) ← readDigits? 2 (← readMark? '-' cs)
  let (day, cs) ← readDigits? 2 (← readMark? '-' cs)
  if 1 ≤ month ∧ month ≤ 12 ∧ 1 ≤ day ∧ day ≤ daysInMonth year month then some cs else none

/-- The text behind a fraction of a second, if there is one. -/
def skipFraction : List Char → List Char
  | '.' :: c :: cs => if c.isDigit then cs.dropWhile Char.isDigit else '.' :: c :: cs
  | cs => cs

/-- Reads a time and gives the text behind it. -/
def readTime? (cs : List Char) : Option (List Char) := do
  let (hour, cs) ← readDigits? 2 cs
  let (minute, cs) ← readDigits? 2 (← readMark? ':' cs)
  if ¬ (hour < 24 ∧ minute < 60) then none
  match cs with
  | ':' :: cs =>
    let (second, cs) ← readDigits? 2 cs
    if second < 60 then some (skipFraction cs) else none
  | _ => some cs

/-- Whether a text is an offset from universal time. -/
def isOffset : List Char → Bool
  | ['Z'] => true
  | sign :: cs =>
    (sign = '+' || sign = '-') &&
    match (do
      let (hours, cs) ← readDigits? 2 cs
      let (minutes, cs) ← readDigits? 2 (← readMark? ':' cs)
      some (hours ≤ 24 && minutes ≤ 60 && cs.isEmpty)) with
    | some valid => valid
    | none => false
  | [] => false

/-- Date and time may be divided by a space, and their letters may be small. -/
def normalizeDateChar (c : Char) : Char :=
  if c = 't' || c = ' ' then 'T' else if c = 'z' then 'Z' else c

/-- Whether a text is a date, a time, or both. -/
def isDateTime (text : List Char) : Bool :=
  let cs := text.map normalizeDateChar
  match readDate? cs with
  | some [] => true
  | some (mark :: rest) =>
    mark = 'T' &&
    match readTime? rest with
    | some [] => true
    | some offset => isOffset offset
    | none => false
  | none => readTime? cs = some []

end Toml
end RegisterAllocation
