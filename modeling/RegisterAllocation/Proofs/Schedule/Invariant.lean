import RegisterAllocation.Proofs.Contents
import RegisterAllocation.Move.Schedule
import Mathlib.Algebra.Order.BigOperators.Group.List
import Mathlib.Algebra.Order.Ring.Int

/-!
# What scheduling preserves

A state of scheduling is looked at in three ways.

* `Scheduling.Sane`: the moves that are left are moves of the set, the slots they read now are
  registers or temporaries in use, and there are temporaries left for all that may have to be saved.
* `Scheduling.Queued`: a ready move overwrites nothing that a pending move or one behind it in the
  queue has to read.
* `Scheduling.Faithful`: the moves that are emitted have arrived, and what a move has to read that
  is left is still there, at the full width of the move.

Each step of scheduling keeps all three. At the end no move is left, so all have arrived.
-/

namespace RegisterAllocation

/-- Moves that can be scheduled: no two write the same slot, none lacks its constant, and all their
slots are registers below the temporaries. -/
structure Move.Schedulable (temporary : Register) (moves : List Move) : Prop where
  compatible : Move.Compatible moves
  nodup : moves.Nodup
  known : ∀ move ∈ moves, move.source ≠ .missing
  below : ∀ move ∈ moves, ∀ slot ∈ move.written ++ move.slotsRead, 0 ≤ slot ∧ slot < temporary

/-- The moves write below the temporaries. -/
theorem Move.Schedulable.written_below {temporary : Register} {moves : List Move}
    (h : Move.Schedulable temporary moves) {move : Move} (hmove : move ∈ moves) {slot : Register}
    (hslot : slot ∈ move.written) : 0 ≤ slot ∧ slot < temporary :=
  h.below move hmove slot (by simp [hslot])

/-- The moves read below the temporaries. -/
theorem Move.Schedulable.read_below {temporary : Register} {moves : List Move}
    (h : Move.Schedulable temporary moves) {move : Move} (hmove : move ∈ moves) {slot : Register}
    (hslot : slot ∈ move.slotsRead) : 0 ≤ slot ∧ slot < temporary :=
  h.below move hmove slot (by simp [hslot])

namespace Scheduling

def left (s : Scheduling) : List Move := s.pending ++ s.ready

/-- The slots that a move would read now. -/
def slotsNow (s : Scheduling) (move : Move) : List Register :=
  match move.source with
  | .register source => move.type.footprint (s.location source)
  | _ => []

def IsTemporary (s : Scheduling) (slot : Register) : Prop :=
  ∃ offset : Int64, 0 ≤ offset ∧ offset < s.used ∧ slot = s.temporary + offset

/-- Whether a move that is left would overwrite a slot that `move` has to read. -/
def isExposed (s : Scheduling) (move : Move) : Bool :=
  (s.slotsNow move).any fun slot => s.left.any (·.writes slot)

/-- The slots of a move if they may have to be saved. -/
def exposedWidth (s : Scheduling) (move : Move) : Int :=
  if s.isExposed move then move.type.width.toInt else 0

/-- The contents of the slots after the emitted moves. -/
def contents {α : Type} (load : Option Constant → Nat → α) (before : Contents α) (s : Scheduling) :
    Contents α :=
  Contents.run load before s.emitted.reverse

/-- The moves that are left make sense. The last field bounds the temporaries: every slot that is
saved belongs to a move of the set, and these have different targets below the temporaries. -/
structure Sane (moves : List Move) (s : Scheduling) : Prop where
  nodup : s.left.Nodup
  subset : s.left ⊆ moves
  inUse : ∀ move ∈ s.left, ∀ slot ∈ s.slotsNow move,
    (0 ≤ slot ∧ slot < s.temporary) ∨ s.IsTemporary slot
  writes : ∀ move ∈ s.emitted, ∀ slot ∈ move.written,
    (∃ other ∈ moves, other ∉ s.left ∧ slot ∈ other.written) ∨ s.IsTemporary slot
  reads : ∀ move ∈ s.emitted, ∀ slot ∈ move.slotsRead,
    (0 ≤ slot ∧ slot < s.temporary) ∨ s.IsTemporary slot
  sources : ∀ move ∈ s.emitted,
    (∃ register, move.source = .register register) ∨ ∃ other ∈ moves, other.source = move.source
  used_nonneg : 0 ≤ s.used
  room : s.used.toInt + (s.left.map s.exposedWidth).sum ≤ s.temporary.toInt

/-- Ready moves can be emitted in order. -/
structure Queued (s : Scheduling) : Prop where
  pending : ∀ move ∈ s.ready, ∀ other ∈ s.pending, s.blocks move other = false
  ready : s.ready.Pairwise fun move other => s.blocks move other = false

/-- The emitted moves have done their part, and what is left can still be done. -/
structure Faithful {α : Type} (load : Option Constant → Nat → α) (before : Contents α)
    (moves : List Move) (s : Scheduling) : Prop where
  arrived : ∀ move ∈ moves, move ∉ s.left →
    move.written.map (s.contents load before) = Contents.read load before move
  available : ∀ move ∈ s.left,
    (s.slotsNow move).map (s.contents load before) = move.slotsRead.map before
  kept : ∀ slot, (∀ move ∈ moves, move ∉ s.left → slot ∉ move.written) → ¬ s.IsTemporary slot →
    s.contents load before slot = before slot
  saved : ∀ slot, s.IsTemporary slot →
    ∃ origin, 0 ≤ origin ∧ origin < s.temporary ∧ s.contents load before slot = before origin

/-! ## Blocking -/

/-- A move is not blocked by another that reads none of its slots now. -/
theorem blocks_eq_false_iff {s : Scheduling} {move other : Move} :
    s.blocks move other = false ↔
      other = move ∨ ∀ slot ∈ s.slotsNow other, slot ∉ move.written := by
  unfold blocks slotsNow
  by_cases h : other = move
  · simp [h]
  · cases other.source <;> simp [h, Move.writes]

theorem isBlocked_eq_false_iff {s : Scheduling} {pending : List Move} {move : Move} :
    s.isBlocked pending move = false ↔ ∀ other ∈ pending, s.blocks move other = false := by
  simp [isBlocked]

/-- A move is exposed if another one is still to write where it reads. -/
theorem isExposed_iff {s : Scheduling} {move : Move} :
    s.isExposed move = true ↔
      ∃ slot ∈ s.slotsNow move, ∃ other ∈ s.left, slot ∈ other.written := by
  simp [isExposed, Move.writes_iff]

theorem exposedWidth_nonneg (s : Scheduling) (move : Move) : 0 ≤ s.exposedWidth move := by
  unfold exposedWidth
  split
  · cases move.type <;> decide
  · exact Int.le_refl 0

/-- The demand for temporaries does not grow where no move becomes exposed. -/
theorem exposedWidth_le {s t : Scheduling} {move : Move}
    (h : t.isExposed move = true → s.isExposed move = true) :
    t.exposedWidth move ≤ s.exposedWidth move := by
  by_cases ht : t.isExposed move = true
  · simp [exposedWidth, ht, h ht]
  · simp only [exposedWidth, ht, if_false, Bool.false_eq_true]
    exact exposedWidth_nonneg s move

/-- There are as many temporaries as registers at most. -/
theorem Sane.used_le {moves : List Move} {s : Scheduling} (h : s.Sane moves) :
    s.used ≤ s.temporary := by
  have hsum : 0 ≤ (s.left.map s.exposedWidth).sum :=
    List.sum_nonneg fun width hwidth => by
      obtain ⟨move, -, rfl⟩ := List.mem_map.mp hwidth
      exact exposedWidth_nonneg s move
  have hroom := h.room
  rw [Int64.le_iff_toInt_le]
  omega

/-- Temporaries are not among the registers. -/
theorem Sane.not_isTemporary {moves : List Move} {s : Scheduling} (h : s.Sane moves)
    {slot : Register} (h0 : 0 ≤ slot) (hlt : slot < s.temporary) : ¬ s.IsTemporary slot := by
  rintro ⟨offset, hoffset, hused, rfl⟩
  have := h.used_le
  grind

/-- A source is never looked for in the register number that stands for none. -/
theorem Sane.location_ne {moves : List Move} {s : Scheduling} (h : s.Sane moves) {move : Move}
    (hmove : move ∈ s.left) {source : Register} (hs : move.source = .register source) :
    s.location source ≠ noRegister := by
  have hmem : s.location source ∈ s.slotsNow move := by
    simp only [slotsNow, hs]
    exact MoveType.self_mem_footprint _ _
  have hle := h.used_le
  unfold noRegister
  rcases h.inUse move hmove _ hmem with hreg | ⟨offset, hoffset, hused, heq⟩
  · grind
  · grind

end Scheduling
end RegisterAllocation
