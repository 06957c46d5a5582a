import RegisterAllocation.MoveType

/-!
# Live ranges

The positions at which a register is taken, as intervals in ascending order. A position belongs to
a range when it lies in one of its intervals, which include their start and not their stop.
-/

namespace RegisterAllocation

/-- The positions from `start` up to but not including `stop`. -/
structure Interval where
  start : Position
  stop : Position
deriving DecidableEq, Repr

namespace Interval

def text (interval : Interval) : String :=
  "[" ++ Decimal.ofWord interval.start ++ "," ++ Decimal.ofWord interval.stop ++ ")"

def Mem (interval : Interval) (position : Position) : Prop :=
  interval.start ≤ position ∧ position < interval.stop

end Interval

/-- A set of positions as ascending intervals. -/
structure LiveRange where
  intervals : List Interval
deriving DecidableEq, Repr

namespace LiveRange

instance : Membership Position LiveRange :=
  ⟨fun range position => ∃ interval ∈ range.intervals, interval.Mem position⟩

def empty : LiveRange := ⟨[]⟩

def single (start stop : Position) : LiveRange := ⟨[⟨start, stop⟩]⟩

def text (range : LiveRange) : String := String.join (range.intervals.map (·.text))

/-- Puts an interval behind the others; if it starts where the last one stops, the two become
one. -/
def appendInterval : List Interval → Interval → List Interval
  | [], interval => [interval]
  | [last], interval =>
    if interval.start = last.stop then [⟨last.start, interval.stop⟩] else [last, interval]
  | first :: second :: rest, interval => first :: appendInterval (second :: rest) interval

/-- The range with one more interval at its end. -/
def add (range : LiveRange) (interval : Interval) : LiveRange :=
  ⟨appendInterval range.intervals interval⟩

/-- Whether two ascending lists of intervals meet. -/
def meet : List Interval → List Interval → Bool
  | [], _ => false
  | _ :: _, [] => false
  | x :: xs, y :: ys =>
    if x.stop ≤ y.start then meet xs (y :: ys)
    else if y.stop ≤ x.start then meet (x :: xs) ys
    else true
termination_by xs ys => xs.length + ys.length

def conflicts (range other : LiveRange) : Bool := meet range.intervals other.intervals

/-- The intervals of two ascending lists in the order of their starts. -/
def merge : List Interval → List Interval → List Interval
  | [], ys => ys
  | x :: xs, [] => x :: xs
  | x :: xs, y :: ys =>
    if x.start ≤ y.start then x :: merge xs (y :: ys) else y :: merge (x :: xs) ys
termination_by xs ys => xs.length + ys.length

/-- The positions of two ranges, which must not share any. -/
def union (range other : LiveRange) : Except Fault LiveRange :=
  if range.conflicts other then .error (.conflictingRanges range.text other.text)
  else .ok ((merge range.intervals other.intervals).foldl add empty)

end LiveRange
end RegisterAllocation
