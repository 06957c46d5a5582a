import RegisterAllocation.Container.Heap
import RegisterAllocation.Fault

/-!
# Priority queues

A queue from which the least element leaves first, and of equal elements the one that came first.
The elements are in a heap. Each has the number of its arrival, by which equal elements are told
apart.
-/

namespace RegisterAllocation

namespace PriorityQueue

/-- An element of a queue and the number of its arrival. -/
structure Entry (α : Type) where
  value : α
  index : Int64
deriving DecidableEq, Repr

/-- Whether an entry comes before another one: its element does, or neither element does and it came
first. -/
def Entry.before {α : Type} (before : α → α → Bool) (entry other : Entry α) : Bool :=
  if before entry.value other.value then true
  else if before other.value entry.value then false
  else entry.index < other.index

end PriorityQueue

/-- A priority queue. -/
structure PriorityQueue (α : Type) where
  /-- The heap. -/
  entries : Array (PriorityQueue.Entry α) := #[]
  /-- The number of the next arrival. -/
  count : Int64 := 0
deriving Repr

namespace PriorityQueue

variable {α : Type}

def empty : PriorityQueue α := {}

def size (queue : PriorityQueue α) : Nat := queue.entries.size

def isEmpty (queue : PriorityQueue α) : Bool := queue.entries.isEmpty

def enqueue (before : α → α → Bool) (x : α) (queue : PriorityQueue α) : PriorityQueue α where
  entries := Heap.push (Entry.before before) ⟨x, queue.count⟩ queue.entries
  count := queue.count + 1

/-- The element that leaves next. -/
def peek (queue : PriorityQueue α) : Except Fault α :=
  match queue.entries[0]? with
  | none => .error .emptyQueue
  | some entry => .ok entry.value

/-- Takes the next element out. -/
def dequeue (before : α → α → Bool) (queue : PriorityQueue α) :
    Except Fault (α × PriorityQueue α) :=
  match Heap.pop? (Entry.before before) queue.entries with
  | none => .error .undefined
  | some (entry, rest) => .ok (entry.value, { queue with entries := rest })

/-- The elements in the order in which they leave. -/
def drain (before : α → α → Bool) (queue : PriorityQueue α) : List α :=
  (Heap.drain (Entry.before before) queue.entries).map (·.value)

/-- The queue that holds the elements of a list, entered from the front. -/
def ofList (before : α → α → Bool) (xs : List α) : PriorityQueue α :=
  xs.foldl (fun queue x => queue.enqueue before x) empty

end PriorityQueue
end RegisterAllocation
