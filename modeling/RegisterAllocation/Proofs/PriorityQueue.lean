import RegisterAllocation.Container.PriorityQueue
import RegisterAllocation.Proofs.Heap
import Mathlib.Algebra.Group.Int.Defs
import Mathlib.Algebra.Group.Nat.Defs
import Mathlib.Data.List.Nodup
import Mathlib.Order.RelClasses

/-!
# Priority queues are stable

A queue keeps its elements in a heap. Seen from outside it is the list of its elements in the order
in which they leave: a new element is inserted into this list behind those that it does not come
before (`PriorityQueue.Valid.drain_enqueue`), and the first one leaves
(`PriorityQueue.dequeue_cases`).

A queue is compared with the list of the elements that it holds, in the order in which they came.
The element that leaves next is the first one in this list that nothing comes before
(`PriorityQueue.Leads`). The elements leave as the stable sort of the list, and so the queue answers
every sequence of operations as the list tells (`PriorityQueue.performAll_stable`).
-/

namespace RegisterAllocation

/-! ## Stable sorts -/

namespace Sorting

variable {α : Type} {before : α → α → Bool} {x y z : α} {xs sorted : List α}

/-- Neither of two elements comes before the other. -/
def tied (before : α → α → Bool) (x y : α) : Bool := !before x y && !before y x

/-- The elements of `xs` in order, and those that are tied in the order that they have in `xs`. -/
structure IsStableSort (before : α → α → Bool) (xs sorted : List α) : Prop where
  perm : sorted.Perm xs
  ordered : sorted.Pairwise fun x y => before y x = false
  stable : ∀ x, sorted.filter (tied before x) = xs.filter (tied before x)

theorem tied_symm (h : tied before x y = true) : tied before y x = true := by
  simpa [tied, and_comm] using h

/-- An element is inserted in front of nothing but elements that it comes before. -/
theorem insert_split (before : α → α → Bool) (x : α) (xs : List α) :
    ∃ front back, xs = front ++ back ∧ insert before x xs = front ++ x :: back ∧
      ∀ y ∈ back, before x y = true := by
  have hdescending : ∀ ys : List α, ∃ passed rest, ys = passed ++ rest ∧
      insertDescending before x ys = passed ++ x :: rest ∧ ∀ y ∈ passed, before x y = true := by
    intro ys
    fun_induction insertDescending before x ys with
    | case1 => exact ⟨[], [], rfl, rfl, by simp⟩
    | case2 y ys hbefore ih =>
      obtain ⟨passed, rest, hys, hinsert, hpassed⟩ := ih
      exact ⟨y :: passed, rest, by simp [hys], by simp [hinsert], by simpa [hbefore] using hpassed⟩
    | case3 y ys hbefore => exact ⟨[], y :: ys, rfl, rfl, by simp⟩
  obtain ⟨passed, rest, hxs, hinsert, hpassed⟩ := hdescending xs.reverse
  refine ⟨rest.reverse, passed.reverse, ?_, ?_, by simpa using hpassed⟩
  · rw [← List.reverse_append, ← hxs, List.reverse_reverse]
  · simp [insert, hinsert]

/-- Insertion only looks at how the new element compares with the others. -/
theorem map_insert {β : Type} {before' : β → β → Bool} {f : α → β}
    (h : ∀ y ∈ xs, before x y = before' (f x) (f y)) :
    (insert before x xs).map f = insert before' (f x) (xs.map f) := by
  have hdescending : ∀ ys : List α, (∀ y ∈ ys, before x y = before' (f x) (f y)) →
      (insertDescending before x ys).map f = insertDescending before' (f x) (ys.map f) := by
    intro ys
    induction ys with
    | nil => exact fun _ => rfl
    | cons y ys ih =>
      intro hys
      obtain ⟨hy, hys⟩ := List.forall_mem_cons.mp hys
      rw [insertDescending, List.map_cons, insertDescending, ← hy]
      split
      · rw [List.map_cons, ih hys]
      · rfl
  rw [insert, insert, List.map_reverse, hdescending _ (by simpa using h), List.map_reverse]

section Weak

variable [order : IsStrictWeakOrder α fun x y => before x y = true]
include order

theorem before_self (x : α) : before x x = false :=
  Bool.eq_false_iff.mpr (order.irrefl x)

theorem before_asymm (h : before x y = true) : before y x = false :=
  Bool.eq_false_iff.mpr fun h' => order.irrefl x (order.trans x y x h h')

theorem tied_self (x : α) : tied before x x = true := by
  simp [tied, before_self]

/-- What is tied with the same is tied. -/
theorem tied_trans (h : tied before x y = true) (h' : tied before y z = true) :
    tied before x z = true := by
  have hincomparable := order.incomp_trans x y z
  simp_all [tied]

/-- Not to come before another element is an order as well. -/
theorem agrees_of_weak : Agrees before fun x y => before y x = false where
  le _ _ h := before_asymm h
  ge _ _ h := h
  trans x y z hxy hyz := by
    refine Bool.eq_false_iff.mpr fun hzx => ?_
    -- an element between the two is tied with both, or else it is on the wrong side of one
    have hleft : before x y = false := Bool.eq_false_iff.mpr fun h => by
      have hzy : before z y = true := order.trans z x y hzx h
      rw [hyz] at hzy
      cases hzy
    have hright : before y z = false := Bool.eq_false_iff.mpr fun h => by
      have hyx : before y x = true := order.trans y z x h hzx
      rw [hxy] at hyx
      cases hyx
    have htied : tied before x z = true :=
      tied_trans (y := y) (by simp [tied, hleft, hxy]) (by simp [tied, hright, hyz])
    simp [tied, hzx] at htied

/-- An element that comes in last goes behind all that it is tied with. -/
theorem filter_insert (x z : α) (xs : List α) :
    (insert before x xs).filter (tied before z) = (xs ++ [x]).filter (tied before z) := by
  obtain ⟨front, back, rfl, hinsert, hback⟩ := insert_split before x xs
  rw [hinsert]
  by_cases hx : tied before z x = true
  · have hnone : back.filter (tied before z) = [] := by
      refine List.filter_eq_nil_iff.mpr fun y hy hzy => ?_
      have hxy := tied_trans (tied_symm hx) hzy
      simp [tied, hback y hy] at hxy
    simp [hx, hnone]
  · simp [hx]

/-- Inserting an element keeps the sort stable. -/
theorem IsStableSort.insert (h : IsStableSort before xs sorted) (x : α) :
    IsStableSort before (xs ++ [x]) (insert before x sorted) where
  perm := ((insert_perm before x sorted).trans (h.perm.cons x)).trans
    (List.perm_append_singleton x xs).symm
  ordered := insert_ordered agrees_of_weak h.ordered
  stable z := by rw [filter_insert, List.filter_append, List.filter_append, h.stable z]

end Weak

end Sorting

/-! ## Queues as sorted lists -/

namespace PriorityQueue

open Sorting

variable {α : Type} {before : α → α → Bool}

/-- The numbers of arrival only matter between equal elements. -/
theorem Entry.agrees {r : α → α → Prop} (h : Agrees before r) :
    Agrees (Entry.before before) fun entry other => r entry.value other.value where
  trans _ _ _ := h.trans _ _ _
  le entry other hbefore := by
    unfold Entry.before at hbefore
    split at hbefore
    · next hvalue => exact h.le _ _ hvalue
    · split at hbefore
      · cases hbefore
      · next hvalue => exact h.ge _ _ (by simpa using hvalue)
  ge entry other hbefore := by
    unfold Entry.before at hbefore
    split at hbefore
    · cases hbefore
    · next hvalue => exact h.ge _ _ (by simpa using hvalue)

/-- An entry does not come before another if the order or else the index says so. -/
theorem Entry.before_eq_false_iff {entry other : Entry α} :
    Entry.before before other entry = false ↔
      before other.value entry.value = false ∧
        (before entry.value other.value = true ∨ entry.index ≤ other.index) := by
  unfold Entry.before
  split
  · next h => simp [h]
  · next h =>
    split
    · next h' => simp [h, h']
    · next h' => simp [h, h']

/-- All elements leave a queue once. -/
theorem drain_perm (before : α → α → Bool) (queue : PriorityQueue α) :
    (queue.drain before).Perm (queue.entries.toList.map (·.value)) :=
  (Heap.drain_perm (Entry.before before) queue.entries).map _

/-- As many elements leave as there are. -/
theorem length_drain (before : α → α → Bool) (queue : PriorityQueue α) :
    (queue.drain before).length = queue.size := by
  simpa [size] using (drain_perm before queue).length_eq

/-- An element leaves, or there is none. -/
theorem dequeue_cases (before : α → α → Bool) (queue : PriorityQueue α) :
    (queue.drain before = [] ∧ queue.dequeue before = .error .undefined) ∨
    ∃ entry rest, Heap.pop? (Entry.before before) queue.entries = some (entry, rest) ∧
      queue.dequeue before = .ok (entry.value, { queue with entries := rest }) ∧
      queue.drain before = entry.value :: drain before { queue with entries := rest } := by
  unfold drain dequeue
  rw [Heap.drain]
  split
  · next hpop => exact .inl ⟨rfl, by rw [hpop]⟩
  · next entry rest hpop => exact .inr ⟨entry, rest, hpop, by rw [hpop], rfl⟩

/-- The element that leaves next is at the root. -/
theorem peek_eq (before : α → α → Bool) (queue : PriorityQueue α) :
    queue.peek = match queue.drain before with
      | [] => .error .emptyQueue
      | x :: _ => .ok x := by
  obtain ⟨hnone, -⟩ | ⟨entry, rest, hpop, -, hdrain⟩ := dequeue_cases before queue
  · have hsize : queue.entries.size ≤ 0 := by
      have hlength := length_drain before queue
      rw [hnone] at hlength
      exact Nat.le_of_eq hlength.symm
    rw [hnone, peek, Array.getElem?_eq_none hsize]
  · rw [hdrain, peek, Heap.root_of_pop? hpop]

/-! ### The queue of a list -/

/-- Adding an element loses none. -/
theorem values_enqueue_perm (before : α → α → Bool) (x : α) (queue : PriorityQueue α) :
    ((queue.enqueue before x).entries.toList.map (·.value)).Perm
      (x :: queue.entries.toList.map (·.value)) :=
  (Heap.push_perm (Entry.before before) ⟨x, queue.count⟩ queue.entries).map _

/-- The elements of a list are those of its queue. -/
theorem drain_ofList_perm (before : α → α → Bool) (xs : List α) :
    ((ofList before xs).drain before).Perm xs := by
  have hfold : ∀ queue : PriorityQueue α,
      ((xs.foldl (fun queue x => queue.enqueue before x) queue).entries.toList.map (·.value)).Perm
        (xs ++ queue.entries.toList.map (·.value)) := by
    induction xs with
    | nil => exact fun queue => .refl _
    | cons x xs ih =>
      intro queue
      refine (ih _).trans (((values_enqueue_perm before x queue).append_left xs).trans ?_)
      exact List.perm_middle
  refine (drain_perm before _).trans ((hfold empty).trans ?_)
  simp [empty]

/-- The elements of a list leave its queue in order. -/
theorem drain_ofList_ordered {r : α → α → Prop} (h : Agrees before r) (xs : List α) :
    ((ofList before xs).drain before).Pairwise r := by
  have hagrees := Entry.agrees h
  have hfold : ∀ queue : PriorityQueue α,
      Heap.Ordered (fun entry other => r entry.value other.value) queue.entries →
      Heap.Ordered (fun entry other => r entry.value other.value)
        (xs.foldl (fun queue x => queue.enqueue before x) queue).entries := by
    induction xs with
    | nil => exact fun queue hqueue => hqueue
    | cons x xs ih => exact fun queue hqueue => ih _ (hqueue.push hagrees _)
  exact List.pairwise_map.mpr (Heap.drain_ordered hagrees (hfold empty (Heap.ordered_empty _)))

/-! ### Stability -/

/-- A queue whose heap is in order and whose elements are numbered in the order of their arrival. -/
structure Valid (before : α → α → Bool) (queue : PriorityQueue α) : Prop where
  ordered : Heap.Ordered (fun entry other => Entry.before before other entry = false) queue.entries
  distinct : (queue.entries.toList.map (·.index)).Nodup
  arrived : ∀ entry ∈ queue.entries.toList, entry.index < queue.count

/-- The next arrival has a number of its own. -/
theorem Valid.nodup_cons {queue : PriorityQueue α} (h : Valid before queue) {x : α} :
    ((⟨x, queue.count⟩ :: queue.entries.toList).map (·.index)).Nodup := by
  refine List.nodup_cons.mpr ⟨fun hmem => ?_, h.distinct⟩
  obtain ⟨entry, hentry, heq⟩ := List.mem_map.mp hmem
  exact Int64.lt_irrefl (heq ▸ h.arrived entry hentry)

/-- The counter counts as long as it does not wrap around. -/
theorem toInt_count_succ {count : Int64} (h : count.toInt + 1 < 2 ^ 63) :
    (count + 1).toInt = count.toInt + 1 := by
  have hlow := Int64.le_toInt count
  rw [Int64.toInt_add, show (1 : Int64).toInt = 1 by decide]
  exact Int.bmod_eq_of_le (by omega) (by omega)

theorem valid_empty (before : α → α → Bool) : Valid before empty :=
  ⟨Heap.ordered_empty _, .nil, by simp [empty]⟩

/-- Entries with different numbers have one order only. -/
theorem eq_of_perm_of_ordered {xs ys : List (Entry α)} (hperm : xs.Perm ys)
    (hdistinct : (ys.map (·.index)).Nodup)
    (hxs : xs.Pairwise fun entry other => Entry.before before other entry = false)
    (hys : ys.Pairwise fun entry other => Entry.before before other entry = false) : xs = ys := by
  refine hperm.eq_of_pairwise (fun entry other hentry hother hle hge => ?_) hxs hys
  have hindex : entry.index = other.index := by
    rw [Entry.before_eq_false_iff] at hle hge
    grind
  exact List.inj_on_of_nodup_map hdistinct (hperm.subset hentry) hother hindex

section Weak

variable [order : IsStrictWeakOrder α fun x y => before x y = true]
include order

/-- Not to come before another entry is an order as well. -/
theorem Entry.agrees_of_weak :
    Agrees (Entry.before before) fun entry other => Entry.before before other entry = false where
  ge _ _ h := h
  le entry other h := by
    rw [Entry.before_eq_false_iff]
    have hasymm := @before_asymm α before entry.value other.value _
    unfold Entry.before at h
    grind
  trans entry other third h h' := by
    have htrans := (@Sorting.agrees_of_weak _ before _).trans
    rw [Entry.before_eq_false_iff] at h h' ⊢
    refine ⟨htrans _ _ _ h.1 h'.1, ?_⟩
    by_cases hfirst : before entry.value third.value = true
    · exact .inl hfirst
    · -- all three are tied, so that the numbers count
      have hback : before entry.value third.value = false := by simpa using hfirst
      have hleft := htrans _ _ _ h'.1 hback
      have hright := htrans _ _ _ hback h.1
      grind

/-- **A queue is a sorted list.** A new element goes behind all that it does not come before. -/
theorem Valid.drain_enqueue {queue : PriorityQueue α} (h : Valid before queue) (x : α) :
    (queue.enqueue before x).drain before = Sorting.insert before x (queue.drain before) := by
  have hagrees := @Entry.agrees_of_weak _ before _
  have hold := Heap.drain_perm (Entry.before before) queue.entries
  have hentries : Heap.drain (Entry.before before) (queue.enqueue before x).entries =
      Sorting.insert (Entry.before before) ⟨x, queue.count⟩
        (Heap.drain (Entry.before before) queue.entries) := by
    have hinsert := (insert_perm (Entry.before before) ⟨x, queue.count⟩
      (Heap.drain (Entry.before before) queue.entries)).trans (hold.cons _)
    have hpush := (Heap.drain_perm (Entry.before before) _).trans
      (Heap.push_perm (Entry.before before) ⟨x, queue.count⟩ queue.entries)
    exact eq_of_perm_of_ordered (hpush.trans hinsert.symm)
      ((hinsert.map _).nodup_iff.mpr h.nodup_cons)
      (Heap.drain_ordered hagrees (h.ordered.push hagrees _))
      (insert_ordered hagrees (Heap.drain_ordered hagrees h.ordered))
  rw [drain, hentries, drain]
  refine map_insert fun entry hentry => ?_
  have hlt := h.arrived entry (hold.subset hentry)
  have hasymm := @before_asymm α before x entry.value _
  unfold Entry.before
  grind

/-- Adding an element keeps the heap and its indexes valid. -/
theorem Valid.enqueue {queue : PriorityQueue α} (h : Valid before queue)
    (hcount : queue.count.toInt + 1 < 2 ^ 63) (x : α) : Valid before (queue.enqueue before x) := by
  have hperm := Heap.push_perm (Entry.before before) ⟨x, queue.count⟩ queue.entries
  refine ⟨h.ordered.push Entry.agrees_of_weak _, ?_, fun entry hentry => ?_⟩
  · exact (hperm.map _).nodup_iff.mpr h.nodup_cons
  · rw [PriorityQueue.enqueue, Int64.lt_iff_toInt_lt, toInt_count_succ hcount]
    obtain rfl | hold := List.mem_cons.mp (hperm.subset hentry)
    · exact Int.lt_succ _
    · have hlt := Int64.lt_iff_toInt_lt.mp (h.arrived entry hold)
      omega

/-- Taking an element out keeps the heap and its indexes valid. -/
theorem Valid.of_pop? {queue : PriorityQueue α} {entry : Entry α} {rest : Array (Entry α)}
    (h : Valid before queue)
    (hpop : Heap.pop? (Entry.before before) queue.entries = some (entry, rest)) :
    Valid before { queue with entries := rest } := by
  have hperm := Heap.perm_of_pop? hpop
  refine ⟨h.ordered.of_pop? Entry.agrees_of_weak hpop, ?_, fun other hother => ?_⟩
  · exact ((hperm.map _).nodup_iff.mp h.distinct).of_cons
  · exact h.arrived other (hperm.mem_iff.mpr (List.mem_cons_of_mem _ hother))

end Weak

/-! ## Operations on queues -/

/-- What can be done with a queue. -/
inductive Operation (α : Type) where
  | enqueue (x : α)
  | dequeue
  | peek

def Operation.added : Operation α → Nat
  | enqueue _ => 1
  | _ => 0

/-- How many elements operations add. -/
def addedBy : List (Operation α) → Nat
  | [] => 0
  | op :: ops => op.added + addedBy ops

/-- Carries out an operation. An operation that fails leaves the queue as it is. -/
def perform (before : α → α → Bool) (queue : PriorityQueue α) :
    Operation α → Except Fault (Option α) × PriorityQueue α
  | .enqueue x => (.ok none, queue.enqueue before x)
  | .dequeue =>
    match queue.dequeue before with
    | .ok (x, rest) => (.ok (some x), rest)
    | .error fault => (.error fault, queue)
  | .peek => (queue.peek.map some, queue)

/-- Carries out operations one after another. -/
def performAll (before : α → α → Bool) (queue : PriorityQueue α) :
    List (Operation α) → List (Except Fault (Option α)) × PriorityQueue α
  | [] => ([], queue)
  | op :: ops =>
    let (answer, next) := queue.perform before op
    let (answers, last) := next.performAll before ops
    (answer :: answers, last)

/-- The element `x` comes before the older elements, and none of the newer ones comes before it. -/
structure Leads (before : α → α → Bool) (older : List α) (x : α) (newer : List α) : Prop where
  older : ∀ y ∈ older, before x y = true
  newer : ∀ y ∈ newer, before y x = false

/-- What an operation has to answer and to leave, if the queue holds the elements of a list, which
are in the order in which they came. -/
inductive Obeys (before : α → α → Bool) :
    List α → Operation α → Except Fault (Option α) → List α → Prop
  | enqueue (held : List α) (x : α) : Obeys before held (.enqueue x) (.ok none) (held ++ [x])
  | dequeue (older newer : List α) (x : α) (h : Leads before older x newer) :
    Obeys before (older ++ x :: newer) .dequeue (.ok (some x)) (older ++ newer)
  | peek (older newer : List α) (x : α) (h : Leads before older x newer) :
    Obeys before (older ++ x :: newer) .peek (.ok (some x)) (older ++ x :: newer)
  | dequeueEmpty : Obeys before [] .dequeue (.error .undefined) []
  | peekEmpty : Obeys before [] .peek (.error .emptyQueue) []

/-- What operations have to answer and to leave, one after another. -/
inductive ObeysAll (before : α → α → Bool) :
    List α → List (Operation α) → List (Except Fault (Option α)) → List α → Prop
  | nil (held : List α) : ObeysAll before held [] [] held
  | cons {held next last : List α} {op : Operation α} {ops : List (Operation α)}
    {answer : Except Fault (Option α)} {answers : List (Except Fault (Option α))}
    (h : Obeys before held op answer next) (hrest : ObeysAll before next ops answers last) :
    ObeysAll before held (op :: ops) (answer :: answers) last

/-- Taking out all elements gives them in the order in which they leave. -/
theorem performAll_dequeue (before : α → α → Bool) (queue : PriorityQueue α) :
    (performAll before queue (List.replicate (queue.drain before).length .dequeue)).1 =
        (queue.drain before).map (fun x => .ok (some x)) ∧
      (performAll before queue
        (List.replicate (queue.drain before).length .dequeue)).2.size = 0 := by
  generalize hitems : queue.drain before = items
  induction items generalizing queue with
  | nil =>
    have hsize := length_drain before queue
    rw [hitems] at hsize
    exact ⟨rfl, hsize.symm⟩
  | cons x items ih =>
    obtain ⟨hnone, -⟩ | ⟨entry, rest, -, hdequeue, hdrain⟩ := dequeue_cases before queue
    · rw [hnone] at hitems
      cases hitems
    · rw [hdrain] at hitems
      obtain ⟨rfl, hrest⟩ := List.cons.inj hitems
      simp [List.replicate_succ, performAll, perform, hdequeue, ih _ hrest]

section Weak

variable [order : IsStrictWeakOrder α fun x y => before x y = true]
include order

/-- The first element of the sorted list leads, and the others stay sorted without it. -/
theorem leads_of_isStableSort {held rest : List α} {x : α}
    (h : IsStableSort before held (x :: rest)) :
    ∃ older newer, held = older ++ x :: newer ∧ Leads before older x newer ∧
      IsStableSort before (older ++ newer) rest := by
  obtain ⟨hfirst, hordered⟩ := List.pairwise_cons.mp h.ordered
  -- of the elements that are tied with `x`, it came first
  have hstable := h.stable x
  rw [List.filter_cons_of_pos (tied_self x)] at hstable
  obtain ⟨older, newer, rfl, holder, -, -⟩ := List.filter_eq_cons_iff.mp hstable.symm
  have hmem : ∀ y ∈ older ++ x :: newer, y = x ∨ before y x = false := fun y hy =>
    (List.mem_cons.mp (h.perm.mem_iff.mpr hy)).imp id (hfirst y)
  have hperm : rest.Perm (older ++ newer) := (h.perm.trans List.perm_middle).cons_inv
  refine ⟨older, newer, rfl, ⟨fun y hy => ?_, fun y hy => ?_⟩, hperm, hordered, fun z => ?_⟩
  · have hnot := holder y hy
    obtain rfl | hyx := hmem y (List.mem_append_left _ hy)
    · exact absurd (tied_self y) hnot
    · simpa [tied, hyx] using hnot
  · obtain rfl | hyx := hmem y (by simp [hy])
    · exact before_self y
    · exact hyx
  · have hz := h.stable z
    by_cases hx : tied before z x = true
    · have hnone : older.filter (tied before z) = [] := List.filter_eq_nil_iff.mpr fun y hy hzy =>
        holder y hy (tied_trans (tied_symm hx) hzy)
      simpa [hx, hnone] using hz
    · simpa [hx] using hz

/-- A queue that holds the elements of a list: they leave it as the stable sort of the list, and
`added` elements have come so far. -/
structure Holds (before : α → α → Bool) (queue : PriorityQueue α) (held : List α) (added : Nat) :
    Prop where
  valid : Valid before queue
  count : queue.count.toInt = added
  sorted : IsStableSort before held (queue.drain before)

omit order in
theorem holds_empty : Holds before empty [] 0 where
  valid := valid_empty before
  count := rfl
  sorted := by
    have hnil : (empty : PriorityQueue α).drain before = [] := (drain_perm before empty).eq_nil
    rw [hnil]
    exact ⟨.nil, .nil, fun _ => rfl⟩

/-- An operation answers as it has to, and leaves the sorted elements. -/
theorem Holds.perform {queue : PriorityQueue α} {held : List α} {added : Nat}
    (h : Holds before queue held added) (op : Operation α) (hadded : added + op.added < 2 ^ 63) :
    ∃ next, Obeys before held op (queue.perform before op).1 next ∧
      Holds before (queue.perform before op).2 next (added + op.added) := by
  have hcount := h.count
  cases op with
  | enqueue x =>
    have hroom : queue.count.toInt + 1 < 2 ^ 63 := by
      simp only [Operation.added] at hadded
      omega
    refine ⟨held ++ [x], .enqueue held x, h.valid.enqueue hroom x, ?_, ?_⟩
    · exact (toInt_count_succ hroom).trans (by rw [hcount]; rfl)
    · rw [PriorityQueue.perform, h.valid.drain_enqueue x]
      exact h.sorted.insert x
  | dequeue =>
    obtain ⟨hnone, hdequeue⟩ | ⟨entry, rest, hpop, hdequeue, hdrain⟩ := dequeue_cases before queue
    · have hsorted := h.sorted
      rw [hnone] at hsorted
      obtain rfl : held = [] := hsorted.perm.nil_eq.symm
      simp only [PriorityQueue.perform, hdequeue]
      exact ⟨[], .dequeueEmpty, h⟩
    · have hsorted := h.sorted
      rw [hdrain] at hsorted
      obtain ⟨older, newer, rfl, hleads, hrest⟩ := leads_of_isStableSort hsorted
      simp only [PriorityQueue.perform, hdequeue]
      exact ⟨older ++ newer, .dequeue older newer _ hleads, h.valid.of_pop? hpop, hcount, hrest⟩
  | peek =>
    simp only [PriorityQueue.perform, peek_eq before queue]
    have hsorted := h.sorted
    cases hdrain : queue.drain before with
    | nil =>
      rw [hdrain] at hsorted
      obtain rfl : held = [] := hsorted.perm.nil_eq.symm
      exact ⟨[], .peekEmpty, h⟩
    | cons x rest =>
      rw [hdrain] at hsorted
      obtain ⟨older, newer, rfl, hleads, -⟩ := leads_of_isStableSort hsorted
      exact ⟨older ++ x :: newer, .peek older newer x hleads, h⟩

/-- Every run of operations obeys the specification, as long as the counter does not wrap around. -/
theorem Holds.performAll {queue : PriorityQueue α} {held : List α} {added : Nat}
    (h : Holds before queue held added) (ops : List (Operation α))
    (hadded : added + addedBy ops < 2 ^ 63) :
    ∃ last, ObeysAll before held ops (queue.performAll before ops).1 last ∧
      Holds before (queue.performAll before ops).2 last (added + addedBy ops) := by
  induction ops generalizing queue held added with
  | nil => exact ⟨held, .nil held, h⟩
  | cons op ops ih =>
    rw [addedBy, ← Nat.add_assoc] at hadded ⊢
    obtain ⟨next, hstep, hnext⟩ := h.perform op (by omega)
    obtain ⟨last, hrest, hlast⟩ := ih hnext hadded
    exact ⟨last, .cons hstep hrest, hlast⟩

/-- **A priority queue is stable.** Whatever has been done with a queue that was empty at first,
each operation has answered as it has to: the element that leads the ones that are held, if there is
one. Taking out all elements in the end gives the stable sort of those that are left. The numbers of
arrival must not wrap around: fewer than `2 ^ 63` elements are added. -/
theorem performAll_stable (ops : List (Operation α)) (hadded : addedBy ops < 2 ^ 63) :
    ∃ held sorted, ObeysAll before [] ops (performAll before empty ops).1 held ∧
      (performAll before empty ops).2.size = held.length ∧ IsStableSort before held sorted ∧
      ((performAll before empty ops).2.performAll before
          (List.replicate held.length .dequeue)).1 = sorted.map (fun x => .ok (some x)) ∧
      ((performAll before empty ops).2.performAll before
          (List.replicate held.length .dequeue)).2.size = 0 := by
  obtain ⟨held, hruns, hholds⟩ := (@holds_empty _ before).performAll ops (by simpa using hadded)
  have hlength := hholds.sorted.perm.length_eq
  have hdrained := performAll_dequeue before (performAll before empty ops).2
  rw [hlength] at hdrained
  exact ⟨held, _, hruns, by rw [← hlength, length_drain], hholds.sorted, hdrained⟩

end Weak

/-- Tickets are called by their numbers. The letters tell them apart. -/
def calledBefore (x y : Nat × Char) : Bool := x.1 < y.1

instance : IsStrictWeakOrder (Nat × Char) fun x y => calledBefore x y = true where
  irrefl x := by simp [calledBefore]
  trans x y z := by simpa [calledBefore] using Nat.lt_trans
  incomp_trans x y z := by simp only [calledBefore, decide_eq_true_eq]; omega

/-- An empty queue is asked, tickets come, some are called and more come. -/
def ticketOps : List (Operation (Nat × Char)) :=
  [.dequeue, .enqueue (2, 'a'), .enqueue (1, 'b'), .enqueue (2, 'c'), .enqueue (1, 'd'), .peek,
    .dequeue, .enqueue (1, 'e'), .dequeue, .enqueue (2, 'f')]

theorem performAll_stable_tickets : addedBy ticketOps < 2 ^ 63 ∧ ∃ held,
    ObeysAll calledBefore [] ticketOps
      [.error .undefined, .ok none, .ok none, .ok none, .ok none, .ok (some (1, 'b')),
        .ok (some (1, 'b')), .ok none, .ok (some (1, 'd')), .ok none] held ∧
    held.length = 4 ∧ IsStableSort calledBefore held [(1, 'e'), (2, 'a'), (2, 'c'), (2, 'f')] := by
  have hadded : addedBy ticketOps < 2 ^ 63 := by decide
  have hanswers : (performAll calledBefore empty ticketOps).1 =
      [.error .undefined, .ok none, .ok none, .ok none, .ok none, .ok (some (1, 'b')),
        .ok (some (1, 'b')), .ok none, .ok (some (1, 'd')), .ok none] := by decide +kernel
  have hsize : (performAll calledBefore empty ticketOps).2.size = 4 := by decide +kernel
  have hrest : ((performAll calledBefore empty ticketOps).2.performAll calledBefore
      (List.replicate 4 .dequeue)).1 =
      [(1, 'e'), (2, 'a'), (2, 'c'), (2, 'f')].map fun x => .ok (some x) := by decide +kernel
  obtain ⟨held, sorted, hruns, hlength, hsorted, hdrained, -⟩ :=
    @performAll_stable _ calledBefore _ ticketOps hadded
  rw [hsize] at hlength
  rw [← hlength, hrest] at hdrained
  have hinjective : Function.Injective fun x : Nat × Char =>
      (.ok (some x) : Except Fault (Option (Nat × Char))) := fun x y heq => by simpa using heq
  rw [List.map_injective_iff.mpr hinjective hdrained]
  exact ⟨hadded, held, hanswers ▸ hruns, hlength.symm, hsorted⟩

end PriorityQueue
end RegisterAllocation
