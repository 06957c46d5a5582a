import RegisterAllocation.Proofs.Schedule.Save
import Mathlib.Data.List.Nodup
import Mathlib.Data.List.Perm.Subperm

/-!
# The meaning of a schedule

A schedule leaves every register as if all of its moves had happened at once. Scheduling starts in a
state that satisfies the invariants of `Scheduling.Sane`, `Scheduling.Queued` and
`Scheduling.Faithful`, every step keeps them, and it ends when no move is left.

The temporaries need not be bounded by the caller: the slots that can ever be saved belong to
different moves, whose targets are different registers, so there are at most as many of them as
there are registers (`Scheduler.sane_start`). Only a caller who looks at negative slots has to care
whether temporaries wrap around.
-/

namespace RegisterAllocation

/-- A move whose target, and whose source if it is no constant, are registers. -/
def Move.InRegisters (move : Move) : Prop :=
  0 ≤ move.target ∧
  match move.source with
  | .register register => 0 ≤ register
  | .constant _ => True
  | .missing => False

instance (move : Move) : Decidable move.InRegisters := by
  unfold Move.InRegisters
  cases move.source <;> infer_instance

namespace Scheduling

variable {moves : List Move}

/-! ## Runs -/

/-- The first ready move can be emitted, and looking for unblocked moves then keeps the
invariants. -/
theorem exists_emit {s : Scheduling} {move : Move} {ready : List Move} (hsane : s.Sane moves)
    (hqueued : s.Queued) (hmoves : Move.Schedulable s.temporary moves)
    (hready : s.ready = move :: ready) :
    ∃ t, ({ s with ready } : Scheduling).emit move = .ok t ∧ Emits move { s with ready } t ∧
      t.takeUnblocked.temporary = s.temporary ∧ t.takeUnblocked.Sane moves ∧
      t.takeUnblocked.Queued := by
  have hmem : move ∈ s.left := by simp [left, hready]
  obtain ⟨t, ht, hemits⟩ := emit_spec (s := { s with ready })
    (hmoves.known move (hsane.subset hmem)) fun source hs => hsane.location_ne hmem hs
  refine ⟨t, ht, hemits, hemits.temporary, ?_, ?_⟩
  · exact t.rearranged_takeUnblocked.sane (hemits.sane hready hsane hmoves)
  · exact (hemits.queued hready hsane hmoves hqueued).takeUnblocked

/-- A run of scheduling never fails, keeps what its steps keep and leaves no move. -/
theorem run_spec (s : Scheduling) (hsane : s.Sane moves) (hqueued : s.Queued)
    (hmoves : Move.Schedulable s.temporary moves) :
    ∃ t, s.run = (t, none) ∧ t.Sane moves ∧ t.temporary = s.temporary ∧ t.left = [] ∧
      ∀ P : Scheduling → Prop, Kept moves P → P s → P t := by
  fun_induction run s with
  | case1 s move ready hready fault hemit =>
    obtain ⟨t, ht, -⟩ := exists_emit hsane hqueued hmoves hready
    rw [ht] at hemit
    contradiction
  | case2 s move ready hready next hemit ih =>
    obtain ⟨t, ht, hemits, htemporary, htsane, htqueued⟩ :=
      exists_emit hsane hqueued hmoves hready
    obtain rfl : t = next := by
      rw [ht] at hemit
      exact Except.ok.inj hemit
    obtain ⟨last, hrun, hlsane, hltemporary, hleft, hkept⟩ :=
      ih htsane htqueued (htemporary ▸ hmoves)
    refine ⟨last, hrun, hlsane, hltemporary.trans htemporary, hleft, fun P hP h => ?_⟩
    exact hkept P hP (hP.rearranged t.rearranged_takeUnblocked
      (hP.emits hsane hmoves hqueued hready ht hemits h))
  | case3 s hready hpending =>
    exact ⟨s, rfl, hsane, rfl, by simp [left, hready, hpending], fun P _ h => h⟩
  | case4 s hready hpending ih =>
    obtain ⟨hsane', htemporary, hqueued', hkept⟩ := unblock_spec hsane hmoves hready hpending
    obtain ⟨last, hrun, hlsane, hltemporary, hleft, hlkept⟩ :=
      ih hsane' hqueued' (htemporary ▸ hmoves)
    exact ⟨last, hrun, hlsane, hltemporary.trans htemporary, hleft,
      fun P hP h => hlkept P hP (hkept P hP h)⟩

end Scheduling

namespace Scheduler

/-! ## The start -/

/-- There are at most as many slots in different registers as there are registers. -/
theorem length_le_of_nodup {slots : List Register} {limit : Register} (hnodup : slots.Nodup)
    (hbelow : ∀ slot ∈ slots, 0 ≤ slot ∧ slot < limit) (hlimit : 0 ≤ limit) :
    (slots.length : Int) ≤ limit.toInt := by
  have hinj : (slots.map fun slot => slot.toInt.toNat).Nodup := by
    refine hnodup.map_on fun slot hslot other hother heq => ?_
    have h := (hbelow slot hslot).1
    have h' := (hbelow other hother).1
    rw [Int64.le_iff_toInt_le] at h h'
    simp only [Int64.toInt_zero] at h h'
    exact Int64.toInt_inj.mp (by omega)
  have hsub : (slots.map fun slot => slot.toInt.toNat) ⊆ List.range limit.toInt.toNat := by
    intro n hn
    obtain ⟨slot, hslot, rfl⟩ := List.mem_map.mp hn
    obtain ⟨h0, hlt⟩ := hbelow slot hslot
    rw [Int64.le_iff_toInt_le] at h0
    rw [Int64.lt_iff_toInt_lt] at hlt
    simp only [Int64.toInt_zero] at h0
    rw [List.mem_range]
    omega
  have hlength := (List.subperm_of_subset hinj hsub).length_le
  rw [List.length_map, List.length_range] at hlength
  rw [Int64.le_iff_toInt_le] at hlimit
  simp only [Int64.toInt_zero] at hlimit
  omega

/-- No slot is written twice. -/
theorem nodup_flatMap_written {temporary : Register} {moves : List Move}
    (h : Move.Schedulable temporary moves) : (moves.flatMap Move.written).Nodup := by
  refine List.nodup_flatMap.mpr ⟨fun move _ => MoveType.nodup_footprint _ _, ?_⟩
  refine h.nodup.imp_of_mem fun {move other} hmove hother hne => ?_
  exact fun slot hslot hslot' => h.compatible move hmove other hother hne slot hslot hslot'

theorem length_written (move : Move) : (move.written.length : Int) = move.type.width.toInt := by
  unfold Move.written
  cases move.type <;> rfl

/-- The widths of moves add up to the slots that they write. -/
theorem sum_widths (moves : List Move) :
    (moves.map fun move => move.type.width.toInt).sum =
      ((moves.flatMap Move.written).length : Int) := by
  induction moves with
  | nil => rfl
  | cons move rest ih =>
    rw [List.map_cons, List.sum_cons, ih, List.flatMap_cons, List.length_append, Int.natCast_add,
      length_written]

theorem left_start (scheduler : Scheduler) : scheduler.start.left = scheduler.moves := by
  simp [Scheduling.left, start]

theorem slotsNow_start (scheduler : Scheduler) (move : Move) :
    scheduler.start.slotsNow move = move.slotsRead := by
  unfold Scheduling.slotsNow Move.slotsRead
  cases move.source <;> rfl

/-- Scheduling starts in a sane state. -/
theorem sane_start {scheduler : Scheduler}
    (hmoves : Move.Schedulable scheduler.temporary scheduler.moves)
    (htemporary : 0 ≤ scheduler.temporary) : scheduler.start.Sane scheduler.moves := by
  have hleft := scheduler.left_start
  have htotal := sum_widths scheduler.moves
  constructor
  · exact hleft ▸ hmoves.nodup
  · exact hleft ▸ List.Subset.refl _
  · intro move hmove slot hslot
    exact .inl (hmoves.read_below (hleft ▸ hmove) (scheduler.slotsNow_start move ▸ hslot))
  · simp [start]
  · simp [start]
  · simp [start]
  · exact Int64.le_refl 0
  · have hcost : (scheduler.moves.map scheduler.start.exposedWidth).sum ≤
        (scheduler.moves.map fun move => move.type.width.toInt).sum := by
      refine List.sum_le_sum fun move _ => ?_
      unfold Scheduling.exposedWidth
      split
      · exact Int.le_refl _
      · cases move.type <;> decide
    have hroom := length_le_of_nodup (nodup_flatMap_written hmoves) (fun slot hslot => by
      obtain ⟨move, hmove, hw⟩ := List.mem_flatMap.mp hslot
      exact hmoves.written_below hmove hw) htemporary
    have hused : scheduler.start.used.toInt = 0 := rfl
    have htemp : scheduler.start.temporary = scheduler.temporary := rfl
    rw [hleft, hused, htemp]
    omega

/-- Scheduling starts faithful: nothing has moved. -/
theorem faithful_start {α : Type} (load : Option Constant → Nat → α) (before : Contents α)
    (scheduler : Scheduler) : scheduler.start.Faithful load before scheduler.moves := by
  constructor
  · intro move hmove hnot
    exact absurd (scheduler.left_start ▸ hmove) hnot
  · intro move _
    rw [slotsNow_start]
    rfl
  · exact fun slot _ _ => rfl
  · rintro slot ⟨offset, h0, hoffset, -⟩
    have hused : scheduler.start.used = 0 := rfl
    grind

/-! ## Adding moves -/

/-- No objection means that the move is there already, or that it meets no target. -/
theorem objection?_eq_none {move : Move} {moves : List Move} (h : objection? move moves = none) :
    move ∈ moves ∨ ∀ other ∈ moves, other.targetsMeet move = false := by
  induction moves with
  | nil => simp
  | cons other rest ih =>
    simp only [objection?] at h
    split at h
    · next hsame => exact .inl (by simp [hsame])
    · split at h
      · contradiction
      · next hmeet =>
        rcases ih h with hmem | hall
        · exact .inl (List.mem_cons_of_mem _ hmem)
        · exact .inr fun m hm => (List.mem_cons.mp hm).elim (· ▸ by simpa using hmeet) (hall m)

/-- What can be said of the moves that have been added. -/
structure Accepted (scheduler : Scheduler) : Prop where
  compatible : Move.Compatible scheduler.moves
  nodup : scheduler.moves.Nodup
  below : ∀ move ∈ scheduler.moves, ∀ slot ∈ move.written ++ move.slotsRead,
    slot < scheduler.temporary

theorem accepted_empty (temporary : Register) : Accepted { temporary } :=
  ⟨fun move hmove => absurd hmove (by simp), by simp, fun move hmove => absurd hmove (by simp)⟩

/-- A move that is added is accepted with those before. -/
theorem add_spec {scheduler next : Scheduler} {move : Move} (h : scheduler.add move = .ok next)
    (haccepted : scheduler.Accepted) :
    next.Accepted ∧ next.temporary = scheduler.temporary ∧
      ∀ other, other ∈ next.moves ↔ other ∈ scheduler.moves ∨ other = move := by
  unfold add at h
  split at h
  · contradiction
  · next hnone =>
    split at h
    · next hmem =>
      cases h
      have hmem' : move ∈ scheduler.moves := by simpa using hmem
      refine ⟨haccepted, rfl, fun other => ⟨.inl, ?_⟩⟩
      rintro (hold | rfl)
      · exact hold
      · exact hmem'
    · next hnew =>
      split at h
      · contradiction
      · next hbelow =>
        cases h
        have hnew' : move ∉ scheduler.moves := by simpa using hnew
        have hapart : ∀ other ∈ scheduler.moves, ∀ slot ∈ other.written, slot ∉ move.written := by
          intro other hother slot hslot hwritten
          have hmeet := (objection?_eq_none hnone).resolve_left hnew' other hother
          simp only [Move.targetsMeet, List.any_eq_false] at hmeet
          exact hmeet slot hslot (Move.writes_iff.mpr hwritten)
        refine ⟨⟨?_, ?_, ?_⟩, rfl, fun other => by simp⟩
        · intro first hfirst second hsecond hne slot hslot hslot'
          simp only [List.mem_append, List.mem_singleton] at hfirst hsecond
          rcases hfirst with hf | rfl <;> rcases hsecond with hs | rfl
          · exact haccepted.compatible first hf second hs hne slot hslot hslot'
          · exact hapart first hf slot hslot hslot'
          · exact hapart second hs slot hslot' hslot
          · exact hne rfl
        · exact List.nodup_append.mpr ⟨haccepted.nodup, by simp, fun a ha b hb => by
            rw [List.mem_singleton] at hb
            exact fun heq => hnew' (hb ▸ heq ▸ ha)⟩
        · intro other hother slot hslot
          simp only [List.mem_append, List.mem_singleton] at hother
          rcases hother with hold | rfl
          · exact haccepted.below other hold slot hslot
          · simp only [reachesTemporaries, List.any_eq_true, decide_eq_true_eq, not_exists,
              not_and] at hbelow
            exact Int64.not_le.mp (hbelow slot hslot)

/-- Moves that are added are accepted, and equal ones once. -/
theorem addAll_spec {scheduler next : Scheduler} {moves : List Move}
    (h : scheduler.addAll moves = .ok next) (haccepted : scheduler.Accepted) :
    next.Accepted ∧ next.temporary = scheduler.temporary ∧
      ∀ other, other ∈ next.moves ↔ other ∈ scheduler.moves ∨ other ∈ moves := by
  induction moves generalizing scheduler with
  | nil =>
    cases h
    exact ⟨haccepted, rfl, fun other => by simp⟩
  | cons move rest ih =>
    simp only [addAll, List.foldlM_cons] at h
    cases hadd : scheduler.add move with
    | error fault =>
      rw [hadd] at h
      contradiction
    | ok middle =>
      rw [hadd] at h
      obtain ⟨hmiddle, htemporary, hmem⟩ := add_spec hadd haccepted
      obtain ⟨hnext, htemporary', hmem'⟩ := ih h hmiddle
      refine ⟨hnext, htemporary'.trans htemporary, fun other => ?_⟩
      rw [hmem', hmem, List.mem_cons, or_assoc]

/-- The moves added to an empty scheduler can be scheduled if they are between registers. -/
theorem schedulable_of_addAll {temporary : Register} {scheduler : Scheduler} {moves : List Move}
    (h : addAll { temporary } moves = .ok scheduler) (hregs : ∀ move ∈ moves, move.InRegisters) :
    scheduler.temporary = temporary ∧ (∀ move, move ∈ scheduler.moves ↔ move ∈ moves) ∧
      Move.Schedulable scheduler.temporary scheduler.moves := by
  obtain ⟨haccepted, htemporary, hmem⟩ := addAll_spec h (accepted_empty temporary)
  have hmem' : ∀ move, move ∈ scheduler.moves ↔ move ∈ moves := fun move => by simp [hmem]
  refine ⟨htemporary, hmem', haccepted.compatible, haccepted.nodup, ?_, ?_⟩
  · intro move hmove hmissing
    have hin := (hregs move ((hmem' move).mp hmove)).2
    rw [hmissing] at hin
    exact hin
  · intro move hmove slot hslot
    have hlt := haccepted.below move hmove slot hslot
    obtain ⟨htarget, hsource⟩ := hregs move ((hmem' move).mp hmove)
    refine ⟨?_, hlt⟩
    -- The second slot of a wide value follows the first, which is below the temporaries.
    rcases List.mem_append.mp hslot with hw | hr
    · have hfirst := haccepted.below move hmove move.target
        (List.mem_append_left _ move.target_mem_written)
      rcases Move.mem_written.mp hw with rfl | ⟨-, rfl⟩ <;> grind
    · cases hs : move.source with
      | register register =>
        rw [hs] at hsource
        simp only [Move.slotsRead, hs] at hr
        have hfirst := haccepted.below move hmove register (List.mem_append_right _ (by
          simp only [Move.slotsRead, hs]
          exact MoveType.self_mem_footprint _ _))
        dsimp only at hsource
        rcases MoveType.mem_footprint.mp hr with rfl | ⟨-, rfl⟩ <;> grind
      | constant constant => simp [Move.slotsRead, hs] at hr
      | missing => simp [Move.slotsRead, hs] at hr

end Scheduler

/-! ## Schedules -/

/-- The slots of `used` temporaries from `temporary` on. -/
def IsTemporarySlot (temporary : Register) (used : Int64) (slot : Register) : Prop :=
  ∃ offset : Int64, 0 ≤ offset ∧ offset < used ∧ slot = temporary + offset

/-- `scheduled` carries out `moves` with the help of `used` temporaries from `temporary` on. -/
structure Move.IsSchedule (moves scheduled : List Move) (temporary : Register) (used : Int64) :
    Prop where
  used_nonneg : 0 ≤ used
  used_le : used ≤ temporary
  below : ∀ move ∈ moves, ∀ slot ∈ move.written, 0 ≤ slot ∧ slot < temporary
  writes : ∀ move ∈ scheduled, ∀ slot ∈ move.written,
    (∃ other ∈ moves, slot ∈ other.written) ∨ IsTemporarySlot temporary used slot
  reads : ∀ move ∈ scheduled, ∀ slot ∈ move.slotsRead,
    (0 ≤ slot ∧ slot < temporary) ∨ IsTemporarySlot temporary used slot
  sources : ∀ move ∈ scheduled,
    (∃ register, move.source = .register register) ∨ ∃ other ∈ moves, other.source = move.source
  arrived : ∀ {α : Type} (load : Option Constant → Nat → α) (before : Contents α),
    ∀ move ∈ moves,
      move.written.map (Contents.run load before scheduled) = Contents.read load before move
  kept : ∀ {α : Type} (load : Option Constant → Nat → α) (before : Contents α) (slot : Register),
    (∀ move ∈ moves, slot ∉ move.written) → ¬ IsTemporarySlot temporary used slot →
    Contents.run load before scheduled slot = before slot
  saved : ∀ {α : Type} (load : Option Constant → Nat → α) (before : Contents α) (slot : Register),
    IsTemporarySlot temporary used slot →
    ∃ origin, 0 ≤ origin ∧ origin < temporary ∧
      Contents.run load before scheduled slot = before origin

namespace Scheduler

/-- Scheduling succeeds in a state in which no move is left, and which has all that the steps
keep. -/
theorem schedule_eq {scheduler : Scheduler}
    (hmoves : Move.Schedulable scheduler.temporary scheduler.moves)
    (htemporary : 0 ≤ scheduler.temporary) :
    ∃ last : Scheduling,
      scheduler.schedule = ({ scheduler with used := last.used }, .ok last.emitted.reverse) ∧
      last.Sane scheduler.moves ∧ last.temporary = scheduler.temporary ∧ last.left = [] ∧
      ∀ P : Scheduling → Prop, Scheduling.Kept scheduler.moves P → P scheduler.start → P last := by
  have hrearranged := scheduler.start.rearranged_takeUnblocked
  have hstart : scheduler.start.Queued := ⟨by simp [start], by simp [start]⟩
  obtain ⟨last, hrun, hsane, hlast, hleft, hkept⟩ := Scheduling.run_spec
    scheduler.start.takeUnblocked (hrearranged.sane (sane_start hmoves htemporary))
    hstart.takeUnblocked hmoves
  refine ⟨last, by simp only [schedule, hrun], hsane, hlast, hleft, fun P hP h => ?_⟩
  exact hkept P hP (hP.rearranged hrearranged h)

/-- Scheduling moves that have been added succeeds, and the result is a schedule for them. -/
theorem schedule_spec {temporary : Register} (htemporary : 0 ≤ temporary) {moves : List Move}
    {scheduler : Scheduler} (hadd : addAll { temporary } moves = .ok scheduler)
    (hregs : ∀ move ∈ moves, move.InRegisters) :
    ∃ scheduled, scheduler.schedule.2 = .ok scheduled ∧
      Move.IsSchedule moves scheduled temporary scheduler.schedule.1.used := by
  obtain ⟨rfl, hmem, hmoves⟩ := schedulable_of_addAll hadd hregs
  obtain ⟨last, hschedule, hsane, htemp, hleft, hkept⟩ := schedule_eq hmoves htemporary
  have hfaith : ∀ {α : Type} (load : Option Constant → Nat → α) (before : Contents α),
      last.Faithful load before scheduler.moves := fun load before =>
    hkept _ (Scheduling.kept_faithful load before _) (scheduler.faithful_start load before)
  have hslot : ∀ slot, last.IsTemporary slot ↔ IsTemporarySlot scheduler.temporary last.used slot :=
    fun slot => by rw [Scheduling.IsTemporary, IsTemporarySlot, htemp]
  refine ⟨last.emitted.reverse, by rw [hschedule], ?_⟩
  rw [hschedule]
  constructor
  · exact hsane.used_nonneg
  · exact htemp ▸ hsane.used_le
  · exact fun move hmove slot hw => hmoves.written_below ((hmem move).mpr hmove) hw
  · intro move hmove slot hw
    rcases hsane.writes move (List.mem_reverse.mp hmove) slot hw with ⟨other, hother, -, hw'⟩ | ht
    · exact .inl ⟨other, (hmem other).mp hother, hw'⟩
    · exact .inr ((hslot slot).mp ht)
  · intro move hmove slot hr
    rw [← hslot, ← htemp]
    exact hsane.reads move (List.mem_reverse.mp hmove) slot hr
  · intro move hmove
    obtain hregister | ⟨other, hother, hsource⟩ := hsane.sources move (List.mem_reverse.mp hmove)
    · exact .inl hregister
    · exact .inr ⟨other, (hmem other).mp hother, hsource⟩
  · intro α load before move hmove
    exact (hfaith load before).arrived move ((hmem move).mpr hmove) (by simp [hleft])
  · intro α load before slot hslots ht
    exact (hfaith load before).kept slot (fun move hmove _ => hslots move ((hmem move).mp hmove))
      fun hlastTemporary => ht ((hslot slot).mp hlastTemporary)
  · intro α load before slot ht
    obtain ⟨origin, h0, hlt, heq⟩ := (hfaith load before).saved slot ((hslot slot).mpr ht)
    exact ⟨origin, h0, htemp ▸ hlt, heq⟩

end Scheduler

/-! ## Moves that need no temporaries -/

/-- No move writes what one of them reads. -/
def Move.Direct (moves : List Move) : Prop :=
  ∀ move ∈ moves, ∀ other ∈ moves, ∀ slot ∈ other.slotsRead, slot ∉ move.written

namespace Scheduling

theorem used_emit {s t : Scheduling} {move : Move} (h : s.emit move = .ok t) : t.used = s.used := by
  rw [emit] at h
  split at h
  · cases h
  · cases h
    rfl
  · cases h
    rfl

/-- Nothing is saved when all moves are ready. -/
theorem used_run {s : Scheduling} (h : s.pending = []) : s.run.1.used = s.used := by
  fun_induction run s with
  | case1 s move ready hready fault hemit => rfl
  | case2 s move ready hready next hemit ih =>
    have hpending : next.pending = [] := (remaining_emit hemit).1.trans h
    have htake : next.takeUnblocked.pending = [] := by
      simp [takeUnblocked, hpending, unblocked]
    have hkept : next.takeUnblocked.used = next.used := rfl
    rw [ih htake, hkept, used_emit hemit]
  | case3 s hready hpending => rfl
  | case4 s hready hpending ih => exact absurd h hpending

/-- If no move blocks another, all of them are ready. -/
theorem unblocked_of_not_blocked {s : Scheduling} {pending : List Move}
    (h : ∀ move ∈ pending, ∀ other ∈ pending, s.blocks move other = false) :
    (s.unblocked [] pending).1 = [] := by
  induction pending with
  | nil => rfl
  | cons move rest ih =>
    have hfree : s.isBlocked (move :: rest) move = false :=
      isBlocked_eq_false_iff.mpr (h move List.mem_cons_self)
    have hrest := ih fun other hother third hthird =>
      h other (List.mem_cons_of_mem _ hother) third (List.mem_cons_of_mem _ hthird)
    simp [unblocked, hfree, hrest]

end Scheduling

/-- Moves that do not block each other need no temporary. -/
theorem Scheduler.used_of_direct {scheduler : Scheduler} (h : Move.Direct scheduler.moves) :
    scheduler.schedule.1.used = 0 := by
  have hnone : scheduler.start.takeUnblocked.pending = [] := by
    refine Scheduling.unblocked_of_not_blocked fun move hmove other hother => ?_
    rw [Scheduling.blocks_eq_false_iff, slotsNow_start]
    exact .inr (h move hmove other hother)
  exact Scheduling.used_run hnone

namespace Move.IsSchedule

variable {moves scheduled : List Move} {temporary : Register} {used : Int64}

/-- Registers are no temporaries, even where temporaries wrap around. -/
theorem not_isTemporarySlot (h : IsSchedule moves scheduled temporary used) {slot : Register}
    (h0 : 0 ≤ slot) (hlt : slot < temporary) : ¬ IsTemporarySlot temporary used slot := by
  rintro ⟨offset, hoffset, hused, rfl⟩
  have := h.used_le
  grind

/-- Without temporaries all moves are among the registers. -/
theorem slots_lt (h : IsSchedule moves scheduled temporary 0) :
    ∀ move ∈ scheduled, ∀ slot ∈ move.written ++ move.slotsRead, 0 ≤ slot ∧ slot < temporary := by
  have hnone : ∀ slot, ¬ IsTemporarySlot temporary 0 slot := fun slot ⟨offset, hnonneg, hlt, _⟩ =>
    absurd hnonneg (Int64.not_le.mpr hlt)
  intro move hmove slot hslot
  obtain hwritten | hread := List.mem_append.mp hslot
  · obtain ⟨other, hother, hslot⟩ := (h.writes move hmove slot hwritten).resolve_right (hnone slot)
    exact h.below other hother slot hslot
  · exact (h.reads move hmove slot hread).resolve_right (hnone slot)

/-- A register that is no target keeps its contents. -/
theorem kept_register (h : IsSchedule moves scheduled temporary used) {α : Type}
    (load : Option Constant → Nat → α) (before : Contents α) {slot : Register} (h0 : 0 ≤ slot)
    (hlt : slot < temporary) (hslot : ∀ move ∈ moves, slot ∉ move.written) :
    Contents.run load before scheduled slot = before slot :=
  h.kept load before slot hslot (h.not_isTemporarySlot h0 hlt)

/-- Every temporary is written: it holds what was in a register before. -/
theorem exists_writer (h : IsSchedule moves scheduled temporary used) {slot : Register}
    (hslot : IsTemporarySlot temporary used slot) : ∃ move ∈ scheduled, slot ∈ move.written := by
  by_contra hnot
  obtain ⟨origin, h0, hlt, heq⟩ := h.saved (fun _ _ => slot) id slot hslot
  rw [Contents.run_of_not_mem _ _ fun move hmove hw => hnot ⟨move, hmove, hw⟩] at heq
  obtain rfl : slot = origin := heq
  exact h.not_isTemporarySlot h0 hlt hslot

end Move.IsSchedule

namespace Scheduler

/-- **A schedule has the parallel meaning of its moves.** Moves that have been accepted can be
scheduled, and running the schedule on any contents leaves every slot below the temporaries as the
parallel run does: the targets hold what their moves read at the beginning, and all other slots are
unchanged. -/
theorem run_schedule_eq_runParallel {temporary : Register} (htemporary : 0 ≤ temporary)
    {moves : List Move} {scheduler : Scheduler} (hadd : addAll { temporary } moves = .ok scheduler)
    (hregs : ∀ move ∈ moves, move.InRegisters)
    (hwrap : temporary.toInt + scheduler.schedule.1.used.toInt ≤ 2 ^ 63) :
    ∃ scheduled, scheduler.schedule.2 = .ok scheduled ∧ ∀ file : RegisterFile,
      (∀ slot < temporary, (file.run scheduled).get slot = (file.runParallel moves).get slot) ∧
      (∀ move ∈ moves, move.written.map (file.run scheduled).get = file.read move) ∧
      ∀ slot < temporary, (∀ move ∈ moves, slot ∉ move.written) →
        (file.run scheduled).get slot = file.get slot := by
  obtain ⟨scheduled, hscheduled, hspec⟩ := schedule_spec htemporary hadd hregs
  have hcompatible : Move.Compatible moves := by
    obtain ⟨-, hmem, hmoves⟩ := schedulable_of_addAll hadd hregs
    exact hmoves.compatible.of_subset fun move hmove => (hmem move).mpr hmove
  have hbelow : ∀ slot < temporary,
      ¬ IsTemporarySlot temporary scheduler.schedule.1.used slot := by
    rintro slot hlt ⟨offset, h0, hoffset, rfl⟩
    rw [Int64.lt_iff_toInt_lt] at hlt hoffset
    rw [Int64.le_iff_toInt_le] at h0 htemporary
    simp only [Int64.toInt_zero] at h0 htemporary
    rw [Int64.toInt_add, Int.bmod_eq_of_le (by omega) (by omega)] at hlt
    omega
  refine ⟨scheduled, hscheduled, fun file => ?_⟩
  have harrived : ∀ move ∈ moves, move.written.map (file.run scheduled).get = file.read move := by
    intro move hmove
    rw [RegisterFile.get_run, RegisterFile.read_eq]
    exact hspec.arrived Content.constant file.get move hmove
  have hkept : ∀ slot < temporary, (∀ move ∈ moves, slot ∉ move.written) →
      (file.run scheduled).get slot = file.get slot := by
    intro slot hlt hslot
    rw [RegisterFile.get_run]
    exact hspec.kept Content.constant file.get slot hslot (hbelow slot hlt)
  refine ⟨fun slot hlt => ?_, harrived, hkept⟩
  rw [RegisterFile.get_runParallel]
  refine Contents.eq_runParallel Content.constant file.get _ hcompatible (fun move hmove _ => ?_)
    (hkept slot hlt)
  rw [harrived move hmove, RegisterFile.read_eq]

/-- Two wide values that change places, one of which is also read as a single slot, and a
constant. -/
def wideSwap : List Move :=
  [⟨0, .register 2, .wide⟩, ⟨2, .register 0, .wide⟩, ⟨5, .register 2, .single⟩,
    ⟨6, .constant ⟨0, some (.int 7)⟩, .object⟩]

theorem run_schedule_wideSwap :
    addAll { temporary := 8 } wideSwap = .ok { temporary := 8, moves := wideSwap } ∧
    (∀ move ∈ wideSwap, move.InRegisters) ∧
    ∃ scheduled, (Scheduler.schedule { temporary := 8, moves := wideSwap }).2 = .ok scheduled ∧
      ∀ (file : RegisterFile), ∀ slot < 8,
        (file.run scheduled).get slot = (file.runParallel wideSwap).get slot := by
  have hadd : addAll { temporary := 8 } wideSwap = .ok { temporary := 8, moves := wideSwap } := by
    decide +kernel
  have hused : (Scheduler.schedule { temporary := 8, moves := wideSwap }).1.used = 2 := by
    decide +kernel
  obtain ⟨scheduled, hscheduled, hmeaning⟩ :=
    run_schedule_eq_runParallel (by decide) hadd (by decide) (by rw [hused]; decide)
  exact ⟨hadd, by decide, scheduled, hscheduled, fun file => (hmeaning file).1⟩

end Scheduler
end RegisterAllocation
