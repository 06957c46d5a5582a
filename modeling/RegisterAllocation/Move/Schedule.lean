import RegisterAllocation.Move.Basic

/-!
# Scheduling parallel moves

A set of moves that are meant to happen at once has to be carried out one after another. A move is
blocked while another pending move still has to read a slot that it would overwrite. Moves that are
not blocked are emitted in order. When all remaining moves are blocked there is a cycle, which is
broken by saving the sources that are in the way in fresh temporaries. Temporaries are never reused
within one set.

While the moves are emitted, the contents that a register had at the beginning may be found
elsewhere: in a temporary, or in the target of a move that has copied them. `Scheduling.locations`
keeps track of that.
-/

namespace RegisterAllocation

/-- The moves to be scheduled, in the order in which they were added, and the first temporary. -/
structure Scheduler where
  temporary : Register
  moves : List Move := []
  /-- The number of temporary slots that the last schedule took. -/
  used : Int64 := 0
deriving DecidableEq, Repr

/-- The state of scheduling. -/
structure Scheduling where
  /-- The first temporary. -/
  temporary : Register
  /-- The number of temporary slots in use. -/
  used : Int64
  /-- Moves that were blocked when they were last looked at. -/
  pending : List Move
  /-- Moves waiting to be emitted. -/
  ready : List Move
  /-- Where the initial contents of registers are now, the latest entry first. A register without an
  entry still has its contents. -/
  locations : List (Register × Register)
  /-- The emitted moves, last one first. -/
  emitted : List Move
deriving Repr

namespace Scheduling

/-- Where the initial contents of a register are. -/
def location (s : Scheduling) (register : Register) : Register :=
  (s.locations.lookup register).getD register

/-- Whether a move would overwrite what another pending move has to read. -/
def blocks (s : Scheduling) (move other : Move) : Bool :=
  other ≠ move &&
  match other.source with
  | .register source => (other.type.footprint (s.location source)).any move.writes
  | _ => false

/-- Whether some pending move of `pending` keeps a move from being emitted. -/
def isBlocked (s : Scheduling) (pending : List Move) (move : Move) : Bool :=
  pending.any (s.blocks move)

/-- Splits the pending moves into those that stay blocked and those that become ready. A move that
becomes ready blocks no later one; `kept` are the moves found blocked so far, last one first. -/
def unblocked (s : Scheduling) : (kept pending : List Move) → List Move × List Move
  | kept, [] => (kept.reverse, [])
  | kept, move :: rest =>
    if s.isBlocked (kept.reverse ++ move :: rest) move then unblocked s (move :: kept) rest
    else
      let (blocked, ready) := unblocked s kept rest
      (blocked, move :: ready)

/-- Moves the pending moves that are not blocked to the end of the ready ones. -/
def takeUnblocked (s : Scheduling) : Scheduling :=
  let (blocked, ready) := s.unblocked [] s.pending
  { s with pending := blocked, ready := s.ready ++ ready }

/-- Whether a move that has not been emitted, other than `move`, reads the register `source` in a
way that satisfies `p`. -/
def otherReader (s : Scheduling) (move : Move) (source : Register) (p : Move → Bool) : Bool :=
  (s.pending ++ s.ready).any fun other =>
    other ≠ move && other.source = .register source && p other

/-- Emits a move. Later readers of its source can use the copy it makes, unless one of them needs a
different number of slots. -/
def emit (s : Scheduling) (move : Move) : Except Fault Scheduling :=
  match move.source with
  | .missing => .error .constantWithoutDefinition
  | .constant _ => .ok { s with emitted := move :: s.emitted }
  | .register source =>
    let copied := Move.ofRegisters move.target (s.location source) move.type
    let widthsDiffer := s.otherReader move source fun other => other.type.width ≠ move.type.width
    .ok { s with
      emitted := copied :: s.emitted
      locations := if widthsDiffer then s.locations else (source, move.target) :: s.locations }

/-- The index of the move to be unblocked: the first that is not wide, or else the last. -/
def choice (pending : List Move) : Nat :=
  (pending.findIdx? (·.type ≠ .wide)).getD (pending.length - 1)

/-- The type in which the source of a pending move is saved: wide if another reader needs it so. -/
def savedType (s : Scheduling) (move : Move) (source : Register) : MoveType :=
  if s.otherReader move source (·.type = .wide) then .wide else move.type

/-- Saves the sources of the given pending moves that overlap the target of `move`, each in a fresh
temporary. -/
def saveSources (move : Move) (s : Scheduling) : List Move → Scheduling
  | [] => s
  | other :: rest =>
    match other.source with
    | .register source =>
      if other.type.footprintsMeet (s.location source) move.type move.target then
        let type := s.savedType other source
        let temporary := s.temporary + s.used
        saveSources move
          { s with
            emitted := Move.ofRegisters temporary (s.location source) type :: s.emitted
            locations := (source, temporary) :: s.locations
            used := s.used + type.width } rest
      else saveSources move s rest
    | _ => saveSources move s rest

/-- Makes one of the blocked moves ready by saving the sources it would overwrite. -/
def unblock (s : Scheduling) : Scheduling :=
  let index := choice s.pending
  match s.pending[index]? with
  | none => s
  | some move =>
    let rest := s.pending.eraseIdx index
    saveSources move { s with pending := rest, ready := s.ready ++ [move] } rest

theorem length_unblocked (s : Scheduling) (kept pending : List Move) :
    (s.unblocked kept pending).1.length + (s.unblocked kept pending).2.length
      = kept.length + pending.length := by
  induction pending generalizing kept with
  | nil => simp [unblocked]
  | cons move rest ih =>
    simp only [unblocked]
    split
    · rw [ih]; simp; omega
    · have := ih kept
      simp only [List.length_cons]
      omega

/-- The steps that are left at most: a pending move becomes ready, and a ready one is emitted. -/
def remaining (s : Scheduling) : Nat := 2 * s.pending.length + s.ready.length

theorem remaining_takeUnblocked (s : Scheduling) : s.takeUnblocked.remaining ≤ s.remaining := by
  have := s.length_unblocked [] s.pending
  simp only [takeUnblocked, remaining, List.length_append, List.length_nil] at *
  omega

theorem remaining_emit {s t : Scheduling} {move : Move} (h : s.emit move = .ok t) :
    t.pending = s.pending ∧ t.ready = s.ready := by
  unfold emit at h
  split at h
  · cases h
  · cases h; exact ⟨rfl, rfl⟩
  · cases h; exact ⟨rfl, rfl⟩

theorem saveSources_lists (move : Move) (s : Scheduling) (moves : List Move) :
    (saveSources move s moves).pending = s.pending ∧
      (saveSources move s moves).ready = s.ready := by
  induction moves generalizing s with
  | nil => exact ⟨rfl, rfl⟩
  | cons other rest ih =>
    unfold saveSources
    split
    · split
      · exact ih _
      · exact ih _
    · exact ih _

theorem choice_lt {pending : List Move} (h : pending ≠ []) : choice pending < pending.length := by
  have hpos : 0 < pending.length := List.length_pos_iff.mpr h
  unfold choice
  cases hi : pending.findIdx? (·.type ≠ .wide) with
  | none => simp only [Option.getD_none]; omega
  | some i =>
    simp only [Option.getD_some]
    exact (List.findIdx?_eq_some_iff_findIdx_eq.mp hi).1

theorem length_unblock {s : Scheduling} (h : s.pending ≠ []) :
    s.unblock.pending.length + 1 = s.pending.length ∧
      s.unblock.ready.length = s.ready.length + 1 := by
  have hlt := choice_lt h
  simp only [unblock, List.getElem?_eq_getElem hlt, (saveSources_lists _ _ _).1,
    (saveSources_lists _ _ _).2, List.length_eraseIdx_of_lt hlt, List.length_append,
    List.length_singleton, and_true]
  omega

/-- Emits ready moves, and unblocks one when none is ready, until all moves are emitted. A move that
cannot be emitted ends the run; the state shows how far it came. -/
def run (s : Scheduling) : Scheduling × Option Fault :=
  match _hr : s.ready with
  | move :: ready =>
    match _he : { s with ready := ready }.emit move with
    | .error fault => (s, some fault)
    | .ok next => run next.takeUnblocked
  | [] =>
    if _hp : s.pending = [] then (s, none)
    else run s.unblock
termination_by s.remaining
decreasing_by
  · have := remaining_emit _he
    refine Nat.lt_of_le_of_lt (remaining_takeUnblocked _) ?_
    simp only [remaining, this.1, this.2, _hr, List.length_cons]
    omega
  · have := length_unblock _hp
    simp only [remaining]
    omega

end Scheduling

namespace Scheduler

/-- Whether a slot of a move lies among the temporaries. -/
def reachesTemporaries (scheduler : Scheduler) (move : Move) : Bool :=
  (move.written ++ move.slotsRead).any (scheduler.temporary ≤ ·)

/-- Why a move cannot be added, if it cannot. The moves added before are looked at in order, up to
one that is equal. -/
def objection? (move : Move) : List Move → Option Fault
  | [] => none
  | other :: rest =>
    if other = move then none
    else if other.targetsMeet move then some (.sameDestination other.label move.label)
    else objection? move rest

/-- Adds a move. Equal moves are kept once. Two different moves must not write the same slot, and no
move may touch the temporaries. -/
def add (scheduler : Scheduler) (move : Move) : Except Fault Scheduler :=
  match objection? move scheduler.moves with
  | some fault => .error fault
  | none =>
    if scheduler.moves.contains move then .ok scheduler
    else if scheduler.reachesTemporaries move then
      .error (.overlapsTemporary move.label scheduler.temporary)
    else .ok { scheduler with moves := scheduler.moves ++ [move] }

def isEmpty (scheduler : Scheduler) : Bool := scheduler.moves.isEmpty

/-- The state in which scheduling starts. -/
def start (scheduler : Scheduler) : Scheduling :=
  { temporary := scheduler.temporary, used := 0, pending := scheduler.moves, ready := [],
    locations := [], emitted := [] }

/-- Schedules the moves that have been added. The scheduler remembers how many temporaries it took,
also when the schedule fails. -/
def schedule (scheduler : Scheduler) : Scheduler × Except Fault (List Move) :=
  let (finished, fault) := scheduler.start.takeUnblocked.run
  ({ scheduler with used := finished.used },
    match fault with
    | some fault => .error fault
    | none => .ok finished.emitted.reverse)

def addAll (scheduler : Scheduler) (moves : List Move) : Except Fault Scheduler :=
  moves.foldlM (fun scheduler move => scheduler.add move) scheduler

end Scheduler
end RegisterAllocation
