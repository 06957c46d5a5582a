import RegisterAllocation.Proofs.Moves
import RegisterAllocation.Proofs.Orderly
import RegisterAllocation.Proofs.Reading

/-!
# How allocating ends

A unit that is read gets its allocation or is rejected, unless its moves cannot be scheduled. As
long as the ends of pinned values do not wrap around, two moves at one position write the same slot
only if one of them is of a copy whose target goes to the spill area at that position, so these
copies are the one way in which a contract can be broken (`Allocator.run_orderly_iff`).
-/

namespace RegisterAllocation

/-! ## Adding moves to a scheduler -/

/-- Different moves write different slots, all of them below the temporaries. -/
def Move.Admissible (temporary : Register) (moves : List Move) : Prop :=
  Move.Compatible moves ∧
    ∀ move ∈ moves, ∀ slot ∈ move.written ++ move.slotsRead, slot < temporary

theorem Move.admissible_nil {temporary : Register} : Move.Admissible temporary [] :=
  ⟨fun _ hmove => absurd hmove List.not_mem_nil, fun _ hmove => absurd hmove List.not_mem_nil⟩

/-- A fault of a move that is not admissible. -/
def Fault.IsClash (fault : Fault) : Prop :=
  (∃ first second, fault = .sameDestination first second) ∨
    ∃ move temporary, fault = .overlapsTemporary move temporary

namespace Scheduler

/-- Nothing speaks against a move that meets none of the others. -/
theorem objection?_eq_none_of_compatible {move : Move} {moves : List Move}
    (h : ∀ other ∈ moves, other ≠ move → other.targetsMeet move = false) :
    objection? move moves = none := by
  induction moves with
  | nil => rfl
  | cons other rest ih =>
    obtain ⟨hother, hrest⟩ := List.forall_mem_cons.mp h
    rw [objection?]
    split
    · rfl
    · next hne => rw [hother hne, if_neg Bool.false_ne_true, ih hrest]

/-- Adding a move leaves the moves as they are if it is one of them. -/
theorem add_eq_ok {scheduler : Scheduler} {move : Move}
    (hcompatible : Move.Compatible (scheduler.moves ++ [move]))
    (hbelow : ∀ slot ∈ move.written ++ move.slotsRead, slot < scheduler.temporary) :
    scheduler.add move = .ok (if scheduler.moves.contains move then scheduler
      else { scheduler with moves := scheduler.moves ++ [move] }) := by
  have hnone : objection? move scheduler.moves = none := by
    refine objection?_eq_none_of_compatible fun other hother hne => ?_
    rw [Move.targetsMeet, List.any_eq_false]
    intro slot hslot hwrites
    exact hcompatible other (by simp [hother]) move (by simp) hne slot hslot
      (Move.writes_iff.mp hwrites)
  have hreach : ¬ scheduler.reachesTemporaries move = true := by
    rw [reachesTemporaries, List.any_eq_true]
    rintro ⟨slot, hslot, hle⟩
    exact Int64.not_le.mpr (hbelow slot hslot) (of_decide_eq_true hle)
  rw [add, hnone]
  dsimp only
  rw [if_neg hreach]
  split <;> rfl

/-- The moves after one more has been added. -/
theorem exists_add {scheduler : Scheduler} {move : Move}
    (hcompatible : Move.Compatible (scheduler.moves ++ [move]))
    (hbelow : ∀ slot ∈ move.written ++ move.slotsRead, slot < scheduler.temporary) :
    ∃ next, scheduler.add move = .ok next ∧ next.temporary = scheduler.temporary ∧
      next.moves ⊆ scheduler.moves ++ [move] := by
  refine ⟨_, add_eq_ok hcompatible hbelow, ?_⟩
  split
  · exact ⟨rfl, by simp⟩
  · exact ⟨rfl, List.Subset.refl _⟩

/-- Moves that do not get in each other's way below the temporaries can be added. -/
theorem exists_addAll {scheduler : Scheduler} {moves : List Move}
    (hcompatible : Move.Compatible (scheduler.moves ++ moves))
    (hbelow : ∀ move ∈ moves, ∀ slot ∈ move.written ++ move.slotsRead,
      slot < scheduler.temporary) :
    ∃ last, scheduler.addAll moves = .ok last := by
  induction moves generalizing scheduler with
  | nil => exact ⟨scheduler, rfl⟩
  | cons move moves ih =>
    obtain ⟨hfirst, hrest⟩ := List.forall_mem_cons.mp hbelow
    obtain ⟨next, hadd, htemporary, hmoves⟩ :=
      exists_add (hcompatible.of_subset (by simp)) hfirst
    have hsubset : next.moves ++ moves ⊆ scheduler.moves ++ move :: moves :=
      List.append_subset.mpr ⟨List.Subset.trans hmoves (by simp), by simp⟩
    obtain ⟨last, hlast⟩ := ih (hcompatible.of_subset hsubset) (htemporary ▸ hrest)
    refine ⟨last, ?_⟩
    rw [addAll, List.foldlM_cons, hadd]
    exact hlast

/-- Moves can be added if and only if they are admissible. -/
theorem exists_addAll_iff {temporary : Register} {moves : List Move} :
    (∃ scheduler, addAll { temporary } moves = .ok scheduler) ↔
      Move.Admissible temporary moves := by
  constructor
  · rintro ⟨scheduler, h⟩
    obtain ⟨haccepted, htemporary, hmem⟩ := addAll_spec h (accepted_empty temporary)
    have hsubset : moves ⊆ scheduler.moves := fun move hmove => (hmem move).mpr (.inr hmove)
    refine ⟨haccepted.compatible.of_subset hsubset, fun move hmove slot hslot => ?_⟩
    have hlt := haccepted.below move (hsubset hmove) slot hslot
    rwa [htemporary] at hlt
  · rintro ⟨hcompatible, hbelow⟩
    exact exists_addAll (by simpa using hcompatible) hbelow

/-- What speaks against a move is another one with the same target. -/
theorem objection?_eq_some {move : Move} {moves : List Move} {fault : Fault}
    (h : objection? move moves = some fault) :
    ∃ first second, fault = .sameDestination first second := by
  induction moves with
  | nil => cases h
  | cons other rest ih =>
    rw [objection?] at h
    split at h
    · cases h
    · split at h
      · cases h
        exact ⟨_, _, rfl⟩
      · exact ih h

/-- A move is refused only for a clash. -/
theorem add_eq_error {scheduler : Scheduler} {move : Move} {fault : Fault}
    (h : scheduler.add move = .error fault) : fault.IsClash := by
  rw [add] at h
  split at h
  · next found hsome =>
    cases h
    exact .inl (objection?_eq_some hsome)
  · split at h
    · cases h
    · split at h
      · cases h
        exact .inr ⟨_, _, rfl⟩
      · cases h

/-- Moves are refused only for a clash. -/
theorem addAll_eq_error {scheduler : Scheduler} {moves : List Move} {fault : Fault}
    (h : scheduler.addAll moves = .error fault) : fault.IsClash := by
  induction moves generalizing scheduler with
  | nil => cases h
  | cons move moves ih =>
    rw [addAll, List.foldlM_cons] at h
    cases hadd : scheduler.add move with
    | error found =>
      rw [hadd] at h
      cases h
      exact add_eq_error hadd
    | ok next =>
      rw [hadd] at h
      exact ih h

end Scheduler

/-! ## Scheduling all moves -/

namespace Allocation

variable {u : CodeUnit} {config : Config} {pieces : List Piece}

/-- The moves of a position are scheduled exactly if they are admissible. -/
theorem scheduleSet_outcome {temporary : Register} (htemporary : 0 ≤ temporary)
    (position : Position) {moves : List Move} (hregisters : ∀ move ∈ moves, move.InRegisters) :
    (Move.Admissible temporary moves ∧
        ∃ result, scheduleSet temporary position moves = .ok result) ∨
      ¬ Move.Admissible temporary moves ∧
        ∃ fault, fault.IsClash ∧ scheduleSet temporary position moves = .error fault := by
  rw [← Scheduler.exists_addAll_iff, scheduleSet]
  cases hadd : Scheduler.addAll { temporary } moves with
  | error fault =>
    exact .inr ⟨by simp, fault, Scheduler.addAll_eq_error hadd, rfl⟩
  | ok scheduler =>
    obtain ⟨scheduled, hscheduled, -⟩ := Scheduler.schedule_spec htemporary hadd hregisters
    refine .inl ⟨⟨scheduler, rfl⟩, ({ position, moves, scheduled }, scheduler.schedule.1.used), ?_⟩
    simp only [bind, Except.bind, hscheduled]
    rfl

/-- All sets can be scheduled if their moves are admissible, and otherwise there is a clash. -/
theorem scheduleSets_outcome {temporary : Register} (htemporary : 0 ≤ temporary) (used : Int64)
    {table : MoveTable} (hregisters : ∀ entry ∈ table, ∀ move ∈ entry.2, move.InRegisters) :
    ((∀ entry ∈ table, Move.Admissible temporary entry.2) ∧
      ∃ result, scheduleSets temporary used table = .ok result) ∨
    (¬ ∀ entry ∈ table, Move.Admissible temporary entry.2) ∧
      ∃ fault, fault.IsClash ∧ scheduleSets temporary used table = .error fault := by
  induction table generalizing used with
  | nil => exact .inl ⟨by simp, _, rfl⟩
  | cons entry table ih =>
    obtain ⟨position, moves⟩ := entry
    obtain ⟨hfirst, hrest⟩ := List.forall_mem_cons.mp hregisters
    rw [List.forall_mem_cons, scheduleSets]
    obtain ⟨hset, ⟨set, temporaries⟩, heq⟩ | ⟨hset, fault, hclash, heq⟩ :=
      scheduleSet_outcome htemporary position hfirst
    · rw [heq]
      obtain ⟨hsets, ⟨sets, total⟩, heq⟩ | ⟨hsets, fault, hclash, heq⟩ :=
        ih (max used (temporary + temporaries)) hrest
      · refine .inl ⟨⟨hset, hsets⟩, (set :: sets, total), ?_⟩
        simp only [bind, Except.bind, heq]
        rfl
      · refine .inr ⟨fun h => hsets h.2, fault, hclash, ?_⟩
        simp only [bind, Except.bind, heq]
    · rw [heq]
      exact .inr ⟨fun h => hset h.1, fault, hclash, rfl⟩

/-! ## Copies that clash -/

/-- A copy whose target goes to the spill area at its position, and which has another move. -/
def Diverted (u : CodeUnit) (pieces : List Piece) (copy : Copy) : Prop :=
  ∃ head tail move, Piece.ofValue pieces copy.target = [head, tail] ∧ tail.start = copy.position ∧
    CopyMove u pieces copy (some move) ∧ move ≠ Scan.relocation u head tail

theorem slotsRead_ofRegisters {source : Register} (h : 0 ≤ source) (target : Register)
    (type : MoveType) :
    (Move.ofRegisters target source type).slotsRead = type.footprint source := by
  rw [Move.ofRegisters, if_neg (Register.ne_noRegister h), Move.slotsRead]

/-- A value that goes to the spill area is read where it was, if at all. -/
theorem slotsRead_relocation {head tail : Piece} (h : 0 ≤ head.register) :
    (Scan.relocation u head tail).slotsRead ⊆
    (u.value head.value).type.footprint head.register := by
  rw [Scan.relocation]
  split
  · exact List.nil_subset _
  · rw [slotsRead_ofRegisters h]
    exact List.Subset.refl _

section Sound

variable {copies : List Copy} {scanned table : MoveTable} (hsound : Sound u config pieces scanned)
  (hcopies : Extends u pieces copies scanned table)
include hsound

/-- The slots of pieces are below the temporaries. -/
theorem slot_lt_firstTemporary {piece : Piece} (hpiece : piece ∈ pieces) {slot : Register}
    (hslot : slot ∈ (u.value piece.value).type.footprint piece.register) :
    slot < firstTemporary u pieces := by
  have hbounds := (MoveType.mem_footprint_iff_of_fits (hsound.fits piece hpiece).2).mp hslot
  exact Int64.lt_of_lt_of_le hbounds.2 ((firstTemporary_spec u pieces).2.1 piece hpiece)

include hcopies

/-- What a move reads is in a piece. -/
theorem read_lt_firstTemporary {position : Position} {move : Move}
    (hmove : move ∈ table.movesAt position) {slot : Register} (hslot : slot ∈ move.slotsRead) :
    slot < firstTemporary u pieces := by
  rw [hcopies.mem, hsound.moves] at hmove
  obtain ⟨v, head, tail, hown, -, rfl⟩ | ⟨copy, hcopy, -, hmove⟩ := hmove
  · obtain ⟨hhead, -⟩ := hsound.pair hown
    exact slot_lt_firstTemporary hsound hhead
      (slotsRead_relocation (hsound.fits head hhead).1 hslot)
  · cases hmove with
    | constant register constant => exact absurd hslot List.not_mem_nil
    | moved register origin htarget hneeds hsource =>
      obtain ⟨piece, hpiece, hvalue, -, rfl⟩ := Piece.exists_of_registerAt? hsource
      rw [slotsRead_ofRegisters (hsound.fits piece hpiece).1,
        ← MoveType.footprint_congr (hcopies.width copy hcopy), ← hvalue] at hslot
      exact slot_lt_firstTemporary hsound hpiece hslot

/-- Such a copy and the way to the spill area fill the same piece. -/
theorem not_compatible_of_diverted {copy : Copy} (hcopy : copy ∈ copies)
    (h : Diverted u pieces copy) : ¬ Move.Compatible (table.movesAt copy.position) := by
  obtain ⟨head, tail, move, hown, hstart, hmove, hne⟩ := h
  obtain ⟨-, -, htail, hvalue, hlayout⟩ := hsound.pair hown
  have hrelocation : Scan.relocation u head tail ∈ table.movesAt copy.position :=
    (hcopies.mem _ _).mpr (.inl ((hsound.moves _ _).mpr ⟨_, head, tail, hown, hstart, rfl⟩))
  have hcopied : move ∈ table.movesAt copy.position :=
    (hcopies.mem _ _).mpr (.inr ⟨copy, hcopy, rfl, hmove⟩)
  have hcovers : tail.covers copy.position = true :=
    Piece.covers_iff.mpr ⟨hstart ▸ Int64.le_refl _, hstart ▸ hlayout.pair.2.2.2.1⟩
  obtain ⟨register, hregister, hwritten⟩ := hmove.written_eq
  rw [← hvalue, Piece.registerAt?_eq (hsound.layout tail htail) htail hcovers] at hregister
  cases hregister
  intro hcompatible
  refine hcompatible move hcopied _ hrelocation hne tail.register ?_ ?_
  · rw [hwritten]
    exact MoveType.self_mem_footprint _ _
  · rw [Scan.relocation_written]
    exact MoveType.self_mem_footprint _ _

/-- If no target goes to the spill area at its copy, then no two moves of a position write the same
slot. -/
theorem compatible_of_not_diverted (h : ∀ copy ∈ copies, ¬ Diverted u pieces copy)
    (position : Position) : Move.Compatible (table.movesAt position) := by
  intro move hmove other hother hne slot hslot hslot'
  obtain ⟨piece, hpiece, hcovers, hwritten, hkind⟩ := exists_piece_of_move hsound hcopies hmove
  obtain ⟨piece', hpiece', hcovers', hwritten', hkind'⟩ :=
    exists_piece_of_move hsound hcopies hother
  by_cases heq : piece = piece'
  · subst heq
    -- one piece is filled twice: by its own move, by a copy, or by one of each
    obtain ⟨head, hown, hstart, rfl⟩ | ⟨copy, hcopy, hposition, htarget, hspec⟩ := hkind <;>
      obtain ⟨head', hown', hstart', rfl⟩ | ⟨copy', hcopy', hposition', htarget', hspec'⟩ := hkind'
    · cases hown.symm.trans hown'
      exact hne rfl
    · exact h copy' hcopy' ⟨head, piece, other, htarget' ▸ hown, hstart.trans hposition'.symm,
        hspec', hne.symm⟩
    · exact h copy hcopy ⟨head', piece, move, htarget ▸ hown', hstart'.trans hposition.symm,
        hspec, hne⟩
    · obtain rfl := hcopies.copy_unique hcopy hcopy' (hposition.trans hposition'.symm)
        (htarget.trans htarget'.symm)
      exact hne (Option.some.inj (hspec.unique hspec'))
  · rw [hwritten] at hslot
    rw [hwritten'] at hslot'
    exact hsound.not_mem_footprint hpiece hpiece' heq hcovers hcovers' hslot hslot'

/-- The moves of all positions are admissible if and only if no copy is diverted. -/
theorem admissible_iff :
    (∀ position, Move.Admissible (firstTemporary u pieces) (table.movesAt position)) ↔
      ∀ copy ∈ copies, ¬ Diverted u pieces copy := by
  constructor
  · intro h copy hcopy hdiverted
    exact not_compatible_of_diverted hsound hcopies hcopy hdiverted (h copy.position).1
  · intro h position
    refine ⟨compatible_of_not_diverted hsound hcopies h position, fun move hmove slot hslot => ?_⟩
    obtain hwritten | hread := List.mem_append.mp hslot
    · obtain ⟨piece, hpiece, -, heq, -⟩ := exists_piece_of_move hsound hcopies hmove
      exact slot_lt_firstTemporary hsound hpiece (heq ▸ hwritten)
    · exact read_lt_firstTemporary hsound hcopies hmove hread

end Sound
end Allocation

/-! ## Before scheduling -/

namespace CodeUnit

variable {u : CodeUnit} {config : Config}

/-- The pieces of a unit and its moves, which are still to be scheduled. -/
def plan (u : CodeUnit) (config : Config) : Except Failure (List Piece × MoveTable) := do
  Allocation.checkIntervals u u.values
  let reserved ← Reserved.ofUnit u config
  let scan ← Scan.ofUnit u config reserved
  let pieces := Reserved.latest reserved.pieces ++ scan.ended ++ scan.active
  return (pieces, ← Allocation.addCopies u pieces [] scan.moves u.copies)

/-- An allocation is a plan that is scheduled. -/
theorem allocate_eq_plan (u : CodeUnit) (config : Config) :
    u.allocate config = do
      let (pieces, table) ← u.plan config
      let temporary := Allocation.firstTemporary u pieces
      let (moveSets, registersUsed) ← Failure.lift
        (Allocation.scheduleSets temporary temporary table)
      if config.maxRegisters < registersUsed then
        .error (.rejected u.name (.tooManyRegisters registersUsed config.maxRegisters))
      return { pieces, moveSets, temporary, registersUsed } := by
  simp only [allocate, plan, bind_assoc, pure_bind]

/-- A plan has the properties of its parts. -/
theorem planned_of_plan {pieces : List Piece} {table : MoveTable}
    (hregisters : 0 ≤ config.registers) (h : u.plan config = .ok (pieces, table)) :
    ∃ scanned, Allocation.Planned u config pieces scanned table := by
  rw [plan] at h
  obtain ⟨⟨⟩, hintervals, h⟩ := bind_eq_ok h
  obtain ⟨reserved, hreserved, h⟩ := bind_eq_ok h
  obtain ⟨scan, hscan, h⟩ := bind_eq_ok h
  obtain ⟨moves, hmoves, h⟩ := bind_eq_ok h
  cases h
  exact ⟨_, Allocation.planned_of_parts hregisters hintervals hreserved hscan rfl hmoves⟩

/-- No contract is broken before the moves are scheduled. -/
theorem orderly_plan {expr : SExpr} (hread : ofSExpr expr = .ok u) :
    Orderly u (fun _ => True) (u.plan config) := by
  obtain ⟨hbuilt, hintervals⟩ := built_of_read hread
  have hu := hbuilt.consistent
  refine .bind (Allocation.orderly_checkIntervals hu _) fun _ _ => ?_
  refine .bind (Reserved.orderly_ofUnit hu hintervals) fun reserved _ => ?_
  refine .bind (Scan.orderly_ofUnit hu) fun scan _ => ?_
  exact .bind (Allocation.orderly_addCopies hu _ _ _) fun _ _ => trivial

/-- A plan decides how the allocation ends. -/
theorem outcome_of_plan {pieces : List Piece} {table : MoveTable}
    (hregisters : 0 ≤ config.registers) (hplan : u.plan config = .ok (pieces, table)) :
    (Orderly u (fun _ => True) (u.allocate config) ↔ ∀ position,
      Move.Admissible (Allocation.firstTemporary u pieces) (table.movesAt position)) ∧
    ∀ fault, u.allocate config = .error (.fault fault) → fault.IsClash := by
  obtain ⟨scanned, hplanned⟩ := planned_of_plan hregisters hplan
  rw [MoveTable.forall_movesAt hplanned.copies.ordered Move.admissible_nil, allocate_eq_plan, hplan]
  obtain ⟨hall, ⟨sets, used⟩, heq⟩ | ⟨hnot, fault, hclash, heq⟩ :=
    Allocation.scheduleSets_outcome (Allocation.firstTemporary_spec u pieces).1
      (Allocation.firstTemporary u pieces) hplanned.inRegisters
  · simp only [bind, Except.bind, heq, Failure.lift, Except.mapError]
    split
    · exact ⟨iff_of_true (.rejected _) hall, fun _ h => by cases h⟩
    · exact ⟨iff_of_true trivial hall, fun _ h => by cases h⟩
  · simp only [bind, Except.bind, heq, Failure.lift, Except.mapError]
    refine ⟨iff_of_false ?_ hnot, fun _ h => ?_⟩
    · rintro ⟨cause, h⟩
      cases h
    · cases h
      exact hclash

/-- Allocating a unit that is read breaks a contract exactly if there are moves that cannot be
scheduled, and no contract but that of the scheduler. -/
theorem allocate_outcome {expr : SExpr} (hread : ofSExpr expr = .ok u)
    (hregisters : 0 ≤ config.registers) :
    (Orderly u (fun _ => True) (u.allocate config) ↔
      ∀ pieces table, u.plan config = .ok (pieces, table) → ∀ position,
        Move.Admissible (Allocation.firstTemporary u pieces) (table.movesAt position)) ∧
    ∀ fault, u.allocate config = .error (.fault fault) → fault.IsClash := by
  cases hplan : u.plan config with
  | error failure =>
    have horderly : Orderly u (fun _ => True) (u.plan config) := orderly_plan hread
    rw [hplan] at horderly
    obtain ⟨cause, rfl⟩ := horderly
    rw [allocate_eq_plan, hplan]
    exact ⟨iff_of_true (.rejected cause) fun _ _ h => (by cases h), fun _ h => by cases h⟩
  | ok planned =>
    obtain ⟨hiff, hfault⟩ := outcome_of_plan hregisters hplan
    refine ⟨hiff.trans ⟨fun h _ _ heq => ?_, fun h => h _ _ rfl⟩, hfault⟩
    cases heq
    exact h

end CodeUnit

namespace Allocator

/-- Allocating a unit succeeds, or the unit is rejected under its name. -/
def EndsOrderly (allocator : Allocator) (u : CodeUnit) : Prop :=
  (allocator.run u).2 = none ∨ ∃ cause, (allocator.run u).2 = some (.rejected u.name cause)

theorem endsOrderly_iff {allocator : Allocator} {u : CodeUnit} :
    allocator.EndsOrderly u ↔ Orderly u (fun _ => True) (u.allocate allocator.config) := by
  rw [EndsOrderly, run]
  cases u.allocate allocator.config with
  | error failure => simp [Orderly]
  | ok allocation => simp [Orderly]

/-- A run fails as its allocation does. -/
theorem error_of_run {allocator : Allocator} {u : CodeUnit} {failure : Failure}
    (h : (allocator.run u).2 = some failure) : u.allocate allocator.config = .error failure := by
  rw [run] at h
  split at h
  · cases h
  · next found hfound =>
    cases h
    exact hfound

/-- **How allocating a unit that is read ends.** It succeeds or rejects the unit under its name if
and only if the moves of every position are admissible. Otherwise the scheduler finds moves that
write the same slot or reach the temporaries. As long as no end of a pinned value wraps around and
register numbers do not run out, the one cause is a copy whose target goes to the spill area at the
position of the copy. -/
theorem run_orderly_iff {allocator : Allocator} {u : CodeUnit} {expr : SExpr}
    (hread : CodeUnit.ofSExpr expr = .ok u) (hregisters : 0 ≤ allocator.config.registers) :
    (allocator.EndsOrderly u ↔
      ∀ pieces table, u.plan allocator.config = .ok (pieces, table) → ∀ position,
        Move.Admissible (Allocation.firstTemporary u pieces) (table.movesAt position)) ∧
    (∀ fault, (allocator.run u).2 = some (.fault fault) → fault.IsClash) ∧
    ((∀ v ∈ u.values, ∀ register ∈ (u.value v).fixed, (u.value v).type.Fits register) →
      u.NeverWraps allocator.config →
      (allocator.EndsOrderly u ↔
        ∀ pieces table, u.plan allocator.config = .ok (pieces, table) →
          ∀ copy ∈ u.copies, ¬ Allocation.Diverted u pieces copy)) := by
  obtain ⟨hiff, hfault⟩ := CodeUnit.allocate_outcome hread hregisters
  rw [endsOrderly_iff]
  refine ⟨hiff, fun fault h => hfault fault (error_of_run h), fun hpinned hwraps => hiff.trans ?_⟩
  refine forall_congr' fun pieces => forall_congr' fun table => forall_congr' fun hplan => ?_
  obtain ⟨scanned, hplanned⟩ := CodeUnit.planned_of_plan hregisters hplan
  have hsound := hplanned.sound (CodeUnit.wellFormed_of_read hread hpinned hwraps) fun position _ =>
    CodeUnit.not_flipsAt_of_read hread position
  exact Allocation.admissible_iff hsound hplanned.copies

/-- At 4, the value `t` goes to the register of `f`, which is copied to it. -/
def adoptForm : SExpr :=
  .list [.symbol "unit" 1, .symbol "adopt" 1,
    .list [.symbol "intervals" 2,
      .list [.symbol "t" 2, .symbol "single" 2, .int 1 2, .int 10 2] 2,
      .list [.symbol "y" 2, .symbol "single" 2, .int 1 2, .int 8 2] 2,
      .list [.symbol "f" 2, .symbol "single" 2, .int 1 2, .int 4 2] 2,
      .list [.symbol "n" 2, .symbol "single" 2, .int 4 2, .int 6 2] 2] 2,
    .list [.symbol "fixed" 3, .list [.symbol "f" 3, .int 2 3] 3] 3,
    .list [.symbol "copies" 4, .list [.int 4 4, .symbol "f" 4, .symbol "t" 4] 4] 4] 1

/-- What is read from `adoptForm`. -/
def adopt : CodeUnit where
  name := "adopt"
  pool := {
    values := #[
      { number := 0, name := "t", type := .single, start := 1, stop := 10 },
      { number := 1, name := "y", type := .single, start := 1, stop := 8 },
      { number := 2, name := "f", type := .single, start := 1, stop := 4, fixed := some 2 },
      { number := 3, name := "n", type := .single, start := 4, stop := 6 }] }
  values := [0, 1, 2, 3]
  copies := [⟨4, 2, 0⟩]

theorem run_orderly_adopt : CodeUnit.ofSExpr adoptForm = .ok adopt ∧
    Allocator.EndsOrderly { config := { registers := 2, maxRegisters := 10 } } adopt ∧
    ∃ pieces table,
      adopt.plan { registers := 2, maxRegisters := 10 } = .ok (pieces, table) ∧
      Piece.ofValue pieces 0 = [⟨0, 1, 4, 0⟩, ⟨0, 4, 10, 2⟩] ∧
      (∀ position,
        Move.Admissible (Allocation.firstTemporary adopt pieces) (table.movesAt position)) ∧
      ¬ Allocation.Diverted adopt pieces ⟨4, 2, 0⟩ := by
  have hread : CodeUnit.ofSExpr adoptForm = .ok adopt := by decide +kernel
  have hu : adopt.WellFormed { registers := 2, maxRegisters := 10 } := by decide
  have horderly : Allocator.EndsOrderly
      { config := { registers := 2, maxRegisters := 10 } } adopt :=
    .inl (by decide +kernel)
  have hplan : adopt.plan { registers := 2, maxRegisters := 10 } =
      .ok ([⟨2, 1, 4, 2⟩, ⟨0, 1, 4, 0⟩, ⟨1, 1, 8, 1⟩, ⟨0, 4, 10, 2⟩, ⟨3, 4, 6, 0⟩],
        [(4, [⟨2, .register 0, .single⟩])]) := by decide +kernel
  obtain ⟨hadmissible, -, hdiverted⟩ := @run_orderly_iff
    { config := { registers := 2, maxRegisters := 10 } } adopt adoptForm hread (by decide)
  refine ⟨hread, horderly, _, _, hplan, by decide, ?_, ?_⟩
  · exact hadmissible.mp horderly _ _ hplan
  · exact (hdiverted hu.pinned hu.neverWraps).mp horderly _ _ hplan _ (by decide)

/-- At 4, the value `t` goes to the spill area and `y` is copied to it. -/
def clashForm : SExpr :=
  .list [.symbol "unit" 1, .symbol "clash" 1,
    .list [.symbol "intervals" 2,
      .list [.symbol "t" 2, .symbol "single" 2, .int 1 2, .int 10 2] 2,
      .list [.symbol "y" 2, .symbol "single" 2, .int 1 2, .int 8 2] 2,
      .list [.symbol "n" 2, .symbol "single" 2, .int 4 2, .int 6 2] 2] 2,
    .list [.symbol "copies" 3, .list [.int 4 3, .symbol "y" 3, .symbol "t" 3] 3] 3] 1

/-- What is read from `clashForm`. -/
def clash : CodeUnit where
  name := "clash"
  pool := {
    values := #[
      { number := 0, name := "t", type := .single, start := 1, stop := 10 },
      { number := 1, name := "y", type := .single, start := 1, stop := 8 },
      { number := 2, name := "n", type := .single, start := 4, stop := 6 }] }
  values := [0, 1, 2]
  copies := [⟨4, 1, 0⟩]

/-- A copy to a value that goes to the spill area breaks the contract of the scheduler. -/
theorem clash_ends_in_fault : CodeUnit.ofSExpr clashForm = .ok clash ∧
    ({ registers := 2, maxRegisters := 10 } : Config).check = .ok () ∧
    (Allocator.run { config := { registers := 2, maxRegisters := 10 } } clash).2 =
      some (.fault (.sameDestination "2 <- 0 single" "2 <- 1 single")) := by
  have hread : CodeUnit.ofSExpr clashForm = .ok clash := by decide +kernel
  exact ⟨hread, by decide, by decide +kernel⟩

end Allocator
end RegisterAllocation
