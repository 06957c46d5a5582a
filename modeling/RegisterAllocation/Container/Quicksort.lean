import RegisterAllocation.Container.Sorting

/-!
# Quicksort

A quicksort that looks for patterns. Short ranges are sorted by insertion. The pivot is a median,
and the exchanges that finding it takes tell whether the range looks ascending or descending: a
descending range is turned round, and a range that looks ascending is only mended, if a few shifts
suffice. After an unbalanced partition some elements are scattered; after too many of them the range
is sorted with a heap.

The sort is not stable. The comparison `before` need not be an order. Then the result depends on
which elements are compared, and that is what the definitions below fix. Everything is done by
exchanging elements, so the result always has the same elements.
-/

namespace RegisterAllocation
namespace Quicksort

variable {α : Type}

/-- The longest range that is sorted by insertion. -/
def maxInsertion : Nat := 12

/-- The shortest range of which the pivot is a median of medians, and that is mended by shifting. -/
def minLong : Nat := 50

/-- The number of shifts after which mending is given up. -/
def maxShifts : Nat := 5

/-- The number of exchanges that finding a pivot takes in a descending range. -/
def maxExchanges : Nat := 12

/-- Whether the element at `i` comes before the one at `j`. -/
def precedes (before : α → α → Bool) (xs : Array α) (i j : Nat) : Bool :=
  match xs[i]?, xs[j]? with
  | some x, some y => before x y
  | _, _ => false

/-! ## Insertion -/

/-- Moves the element at an index to the left, down to `low` at most, while it comes before its left
neighbour. -/
def shiftLeft (before : α → α → Bool) (low : Nat) : Nat → Array α → Array α
  | 0, xs => xs
  | i + 1, xs =>
    if low ≤ i ∧ precedes before xs (i + 1) i then
      shiftLeft before low i (xs.swapIfInBounds (i + 1) i)
    else xs

/-- Moves elements to the left past the one at `i - 1`, from index `i` up to but not including
`high`, while they come before it. -/
def shiftRight (before : α → α → Bool) (high i : Nat) (xs : Array α) : Array α :=
  if i < high ∧ precedes before xs i (i - 1) then
    shiftRight before high (i + 1) (xs.swapIfInBounds i (i - 1))
  else xs
termination_by high - i

/-- Sorts a range by insertion. -/
def insertion (before : α → α → Bool) (low high : Nat) (xs : Array α) : Array α :=
  (List.range' (low + 1) (high - low - 1)).foldl (fun xs i => shiftLeft before low i xs) xs

/-- The first index from `i` on whose element comes before its left neighbour, or `high`. -/
def firstDescent (before : α → α → Bool) (xs : Array α) (high i : Nat) : Nat :=
  if i < high ∧ precedes before xs i (i - 1) = false then firstDescent before xs high (i + 1) else i
termination_by high - i

/-- Mends a range that is nearly sorted, from index `i` on; also tells whether it is sorted then.
Elements may move out of the range to the left. -/
def mend (before : α → α → Bool) (low high : Nat) : (shifts i : Nat) → Array α → Array α × Bool
  | 0, _, xs => (xs, false)
  | shifts + 1, i, xs =>
    let i := firstDescent before xs high i
    if i = high then (xs, true)
    else if high - low < minLong then (xs, false)
    else
      let xs := xs.swapIfInBounds i (i - 1)
      let xs := if 2 ≤ i - low then shiftLeft before 0 (i - 1) xs else xs
      let xs := if 2 ≤ high - i then shiftRight before high (i + 1) xs else xs
      mend before low high shifts i xs

/-! ## Heaps -/

/-- Moves the element at the node `root` of a heap of `size` elements down, as long as it comes
before a child. The heap starts at index `low`. -/
def siftDown (before : α → α → Bool) (low size root : Nat) (xs : Array α) : Array α :=
  let left := 2 * root + 1
  if left < size then
    let child :=
      if left + 1 < size ∧ precedes before xs (low + left) (low + left + 1) then left + 1 else left
    if precedes before xs (low + root) (low + child) then
      siftDown before low size child (xs.swapIfInBounds (low + root) (low + child))
    else xs
  else xs
termination_by size - root
decreasing_by split <;> omega

/-- Sorts a range with a heap, the greatest element of which is at the top. -/
def heapSort (before : α → α → Bool) (low high : Nat) (xs : Array α) : Array α :=
  let size := high - low
  let heap := (List.range ((size - 1) / 2 + 1)).foldr
    (fun root xs => siftDown before low size root xs) xs
  (List.range size).foldr
    (fun last xs => siftDown before low last 0 (xs.swapIfInBounds low (low + last))) heap

/-! ## Pivots -/

/-- Two indices in the order of their elements, and the number of exchanges so far. -/
def ordered (before : α → α → Bool) (xs : Array α) (i j exchanges : Nat) : Nat × Nat × Nat :=
  if precedes before xs j i then (j, i, exchanges + 1) else (i, j, exchanges)

/-- The index of the median of three elements. -/
def median (before : α → α → Bool) (xs : Array α) (i j k exchanges : Nat) : Nat × Nat :=
  let (i, j, exchanges) := ordered before xs i j exchanges
  let (j, _, exchanges) := ordered before xs j k exchanges
  let (_, j, exchanges) := ordered before xs i j exchanges
  (j, exchanges)

/-- The index of the median of an element and its neighbours. -/
def medianAround (before : α → α → Bool) (xs : Array α) (i exchanges : Nat) : Nat × Nat :=
  median before xs (i - 1) i (i + 1) exchanges

/-- The index of a pivot for a range, and the number of exchanges that finding it took. -/
def pivot (before : α → α → Bool) (low high : Nat) (xs : Array α) : Nat × Nat :=
  let quarter := (high - low) / 4
  let i := low + quarter
  let j := low + quarter * 2
  let k := low + quarter * 3
  if high - low < minLong then median before xs i j k 0
  else
    let (i, exchanges) := medianAround before xs i 0
    let (j, exchanges) := medianAround before xs j exchanges
    let (k, exchanges) := medianAround before xs k exchanges
    median before xs i j k exchanges

/-! ## Patterns -/

/-- Turns a range round. -/
def reverse (low high : Nat) (xs : Array α) : Array α :=
  (List.range ((high - low) / 2)).foldl (fun xs i => xs.swapIfInBounds (low + i) (high - 1 - i)) xs

/-- The next of a sequence of numbers without apparent order. -/
def nextRandom (n : UInt64) : UInt64 :=
  let n := n ^^^ (n <<< 13)
  let n := n ^^^ (n >>> 7)
  n ^^^ (n <<< 17)

/-- Exchanges the elements at `count` indices with others of the range. -/
def scatterFrom (low length : Nat) : (count index : Nat) → UInt64 → Array α → Array α
  | 0, _, _, xs => xs
  | count + 1, index, random, xs =>
    let random := nextRandom random
    let place := random.toNat % 2 ^ (length.log2 + 1)
    let other := if length ≤ place then place - length else place
    scatterFrom low length count (index + 1) random (xs.swapIfInBounds index (low + other))

/-- Exchanges three elements in the middle of a range with others. -/
def scatter (low high : Nat) (xs : Array α) : Array α :=
  let length := high - low
  scatterFrom low length 3 (low + length / 4 * 2 - 2) (UInt64.ofNat length) xs

/-! ## Partitions -/

/-- The first index from `i` up to but not including `stop` that does not satisfy `p`, or `stop`. -/
def skipUp (p : Nat → Bool) (i stop : Nat) : Nat :=
  if i < stop ∧ p i then skipUp p (i + 1) stop else i
termination_by stop - i

/-- The index behind the last one from `i` up to but not including `stop` that does not satisfy `p`,
or `i`. -/
def skipDown (p : Nat → Bool) (i stop : Nat) : Nat :=
  if i < stop ∧ p (stop - 1) then skipDown p i (stop - 1) else stop
termination_by stop

/-- Exchanges elements from index `i` up to but not including `stop`, so that those on the `left`
come first; `fuel` bounds the exchanges. Gives the index where the others start, and whether no
exchange was needed. -/
def split (left : α → Bool) : (fuel i stop : Nat) → Array α → Nat × Bool × Array α
  | 0, i, _, xs => (i, true, xs)
  | fuel + 1, i, stop, xs =>
    let belongs := fun index => (xs[index]?.map left).getD false
    let i := skipUp belongs i stop
    let stop := skipDown (fun index => !belongs index) i stop
    if stop ≤ i then (i, true, xs)
    else
      let (border, _, xs) := split left fuel (i + 1) (stop - 1) (xs.swapIfInBounds i (stop - 1))
      (border, false, xs)

/-- Moves the pivot to the start of a range and splits the rest. -/
def splitRange (left : α → α → Bool) (low high pivot : Nat) (xs : Array α) : Nat × Bool × Array α :=
  let xs := xs.swapIfInBounds low pivot
  match xs[low]? with
  | some p => split (left p) (high - low) (low + 1) high xs
  | none => (low + 1, true, xs)

/-- Brings the elements before the pivot to its left. Gives the index of the pivot, and whether all
elements were on their sides. -/
def partition (before : α → α → Bool) (low high pivot : Nat) (xs : Array α) :
    Nat × Bool × Array α :=
  let (border, done, xs) := splitRange (fun p x => before x p) low high pivot xs
  (border - 1, done, xs.swapIfInBounds (border - 1) low)

/-- Brings the elements that the pivot does not come before to the start of a range. Gives the index
where the others start. -/
def partitionEqual (before : α → α → Bool) (low high pivot : Nat) (xs : Array α) : Nat × Array α :=
  let (border, _, xs) := splitRange (fun p x => !before p x) low high pivot xs
  (border, xs)

/-! ## Sorting -/

/-- Sorts the range from `low` up to but not including `high`. `limit` is the number of unbalanced
partitions that are still put up with; `balanced` and `partitioned` tell of the last partition
whether it was balanced, and whether it had nothing to do. Every step makes the range shorter, which
bounds `fuel`. -/
def sortRange (before : α → α → Bool) :
    (fuel low high limit : Nat) → (balanced partitioned : Bool) → Array α → Array α
  | 0, _, _, _, _, _, xs => xs
  | fuel + 1, low, high, limit, balanced, partitioned, xs =>
    let length := high - low
    if length ≤ maxInsertion then insertion before low high xs
    else if limit = 0 then heapSort before low high xs
    else
      let xs := if balanced then xs else scatter low high xs
      let limit := if balanced then limit else limit - 1
      let (found, exchanges) := pivot before low high xs
      let descending := exchanges = maxExchanges
      let xs := if descending then reverse low high xs else xs
      let pivot := if descending then high - 1 - (found - low) else found
      let ascending := exchanges = 0 ∨ descending
      let (xs, sorted) :=
        if balanced ∧ partitioned ∧ ascending then mend before low high maxShifts (low + 1) xs
        else (xs, false)
      if sorted then xs
      else if 0 < low ∧ precedes before xs (low - 1) pivot = false then
        let (border, xs) := partitionEqual before low high pivot xs
        sortRange before fuel border high limit balanced partitioned xs
      else
        let (middle, done, xs) := partition before low high pivot xs
        if middle - low < high - middle then
          let xs := sortRange before fuel low middle limit true true xs
          sortRange before fuel (middle + 1) high limit (length / 8 ≤ middle - low) done xs
        else
          let xs := sortRange before fuel (middle + 1) high limit true true xs
          sortRange before fuel low middle limit (length / 8 ≤ high - middle) done xs

def sort (before : α → α → Bool) (xs : List α) : List α :=
  let length := xs.length
  let limit := if length = 0 then 0 else length.log2 + 1
  (sortRange before (length + 1) 0 length limit true true xs.toArray).toList

end Quicksort
end RegisterAllocation
