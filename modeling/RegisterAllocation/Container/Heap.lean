/-!
# Binary heaps

A binary tree in an array, level by level: the children of the element at `i` are at `2 * i + 1` and
`2 * i + 2`. Elements are added and taken out in such a way that no element comes before its parent.
-/

namespace RegisterAllocation
namespace Heap

variable {α : Type}

/-- The place of the parent. The root is its own parent. -/
def parent (i : Nat) : Nat := (i - 1) / 2

/-- Whether the element at `i` comes before the one at `j`. -/
def beforeAt (before : α → α → Bool) (xs : Array α) (i j : Nat) : Bool :=
  match xs[i]?, xs[j]? with
  | some x, some y => before x y
  | _, _ => false

theorem lt_size_of_beforeAt {before : α → α → Bool} {xs : Array α} {i j : Nat}
    (h : beforeAt before xs i j = true) : i < xs.size ∧ j < xs.size := by
  unfold beforeAt at h
  split at h
  · next hi hj => exact ⟨(Array.getElem?_eq_some_iff.mp hi).1, (Array.getElem?_eq_some_iff.mp hj).1⟩
  · cases h

/-- Exchanges the element at `i` with its parent as long as it comes before it. -/
def siftUp (before : α → α → Bool) (xs : Array α) (i : Nat) : Array α :=
  if i = 0 then xs
  else if beforeAt before xs i (parent i) then
    siftUp before (xs.swapIfInBounds (parent i) i) (parent i)
  else xs
termination_by i
decreasing_by
  unfold parent
  omega

/-- The child that comes first: the right one only if it comes before the left one. -/
def firstChild (before : α → α → Bool) (xs : Array α) (i : Nat) : Nat :=
  if beforeAt before xs (2 * i + 2) (2 * i + 1) then 2 * i + 2 else 2 * i + 1

theorem lt_firstChild (before : α → α → Bool) (xs : Array α) (i : Nat) :
    i < firstChild before xs i := by
  unfold firstChild
  split <;> omega

/-- Exchanges the element at `i` with the child that comes first as long as that one comes before
it. -/
def siftDown (before : α → α → Bool) (xs : Array α) (i : Nat) : Array α :=
  if h : beforeAt before xs (firstChild before xs i) i = true then
    have := (lt_size_of_beforeAt h).1
    siftDown before (xs.swapIfInBounds i (firstChild before xs i)) (firstChild before xs i)
  else xs
termination_by xs.size - i
decreasing_by
  have hlt := lt_firstChild before xs i
  rw [Array.size_swapIfInBounds]
  omega

/-- Adds an element at the end and lets it rise. -/
def push (before : α → α → Bool) (x : α) (xs : Array α) : Array α :=
  siftUp before (xs.push x) xs.size

/-- Takes the root out. The last element takes its place and sinks. -/
def pop? (before : α → α → Bool) (xs : Array α) : Option (α × Array α) :=
  xs[0]?.map fun x => (x, siftDown before (xs.swapIfInBounds 0 (xs.size - 1)).pop 0)

theorem size_siftDown (before : α → α → Bool) (xs : Array α) (i : Nat) :
    (siftDown before xs i).size = xs.size := by
  fun_induction siftDown before xs i with
  | case1 xs i h hsize ih => rw [ih, Array.size_swapIfInBounds]
  | case2 xs i h => rfl

theorem size_of_pop? {before : α → α → Bool} {xs rest : Array α} {x : α}
    (h : pop? before xs = some (x, rest)) : xs.size = rest.size + 1 := by
  obtain ⟨root, hroot, heq⟩ := Option.map_eq_some_iff.mp h
  have hsize := (Array.getElem?_eq_some_iff.mp hroot).1
  cases heq
  rw [size_siftDown, Array.size_pop, Array.size_swapIfInBounds]
  omega

/-- The elements in the order in which they are taken out. -/
def drain (before : α → α → Bool) (xs : Array α) : List α :=
  match h : pop? before xs with
  | none => []
  | some (x, rest) =>
    have := size_of_pop? h
    x :: drain before rest
termination_by xs.size

end Heap
end RegisterAllocation
