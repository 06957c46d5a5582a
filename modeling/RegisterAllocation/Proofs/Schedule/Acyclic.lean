import RegisterAllocation.Proofs.Schedule.Ledger
import Mathlib.Data.Fintype.Card
import Mathlib.Data.Fintype.EquivFin
import Mathlib.Data.Fintype.Sets
import Mathlib.Order.WellFounded

/-!
# Moves without a cycle

Temporaries are used only where moves overwrite what others read in a circle. When no move is ready,
every pending move is blocked by the source of another pending move. That source is still where it
was at the beginning (`Scheduling.Ledger.secure`), so that each pending move overwrites what another
one reads, and among finitely many moves this closes a cycle.
-/

namespace RegisterAllocation

namespace Move

/-- A move overwrites a slot that another one reads. -/
def Overwrites (move other : Move) : Prop :=
  move ≠ other ∧ ∃ slot ∈ move.written, slot ∈ other.slotsRead

instance (move other : Move) : Decidable (move.Overwrites other) :=
  inferInstanceAs (Decidable (move ≠ other ∧ ∃ slot ∈ move.written, slot ∈ other.slotsRead))

/-- No move overwrites what another one reads in a circle. -/
def Acyclic (moves : List Move) : Prop :=
  ∀ move, ¬ Relation.TransGen
    (fun first second => first ∈ moves ∧ second ∈ moves ∧ first.Overwrites second) move move

/-- There is no cycle where moves are overwritten in the order of some rank only. -/
theorem acyclic_of_rank {moves : List Move} (rank : Move → Nat)
    (h : ∀ first ∈ moves, ∀ second ∈ moves, first.Overwrites second → rank first < rank second) :
    Acyclic moves := by
  have hlt : ∀ {first last}, Relation.TransGen
      (fun first second => first ∈ moves ∧ second ∈ moves ∧ first.Overwrites second) first last →
      rank first < rank last := by
    intro first last hpath
    induction hpath with
    | single hedge => exact h _ hedge.1 _ hedge.2.1 hedge.2.2
    | tail _ hedge ih => exact ih.trans (h _ hedge.1 _ hedge.2.1 hedge.2.2)
  exact fun move hcycle => Nat.lt_irrefl _ (hlt hcycle)

/-- Some of finitely many moves overwrites nothing that the others read. -/
theorem Acyclic.exists_not_overwrites {moves pending : List Move} (h : Acyclic moves)
    (hsub : pending ⊆ moves) (hne : pending ≠ []) :
    ∃ move ∈ pending, ∀ other ∈ pending, ¬ move.Overwrites other := by
  let after (first second : { move // move ∈ moves }) : Prop := Relation.TransGen
    (fun first second => first ∈ moves ∧ second ∈ moves ∧ first.Overwrites second) second.1 first.1
  have : IsTrans _ after := ⟨fun _ _ _ hfirst hsecond => hsecond.trans hfirst⟩
  have : Std.Irrefl after := ⟨fun move => h move.1⟩
  obtain ⟨first, hfirst⟩ := List.exists_mem_of_ne_nil _ hne
  obtain ⟨last, hlast, hmin⟩ := (Finite.wellFounded_of_trans_of_irrefl after).has_min
    { move | move.1 ∈ pending } ⟨⟨first, hsub hfirst⟩, hfirst⟩
  refine ⟨last.1, hlast, fun other hother hover => ?_⟩
  exact hmin ⟨other, hsub hother⟩ hother (.single ⟨last.2, hsub hother, hover⟩)

end Move

namespace Scheduling

variable {moves : List Move} {s : Scheduling}

/-- Where no move becomes ready, all were blocked. -/
theorem unblocked_eq_of_none {kept pending : List Move} (h : (s.unblocked kept pending).2 = []) :
    (s.unblocked kept pending).1 = kept.reverse ++ pending ∧
      ∀ move ∈ pending, s.isBlocked (kept.reverse ++ pending) move = true := by
  induction pending generalizing kept with
  | nil => simp [unblocked]
  | cons move rest ih =>
    rw [unblocked] at h ⊢
    split at h
    · next hblocked =>
      obtain ⟨heq, hrest⟩ := ih h
      have hlist : (move :: kept).reverse ++ rest = kept.reverse ++ move :: rest := by simp
      rw [hlist] at heq hrest
      rw [if_pos hblocked]
      refine ⟨heq, fun other hother => ?_⟩
      obtain rfl | hother := List.mem_cons.mp hother
      · exact hblocked
      · exact hrest other hother
    · simp at h

/-- When no move is ready, all pending moves are blocked. -/
def Stuck (s : Scheduling) : Prop :=
  s.ready = [] → ∀ move ∈ s.pending, s.isBlocked s.pending move = true

/-- What is left pending is blocked. -/
theorem stuck_takeUnblocked (s : Scheduling) : s.takeUnblocked.Stuck := by
  intro hready
  have hnone : (s.unblocked [] s.pending).2 = [] := (List.append_eq_nil_iff.mp hready).2
  obtain ⟨heq, hblocked⟩ := unblocked_eq_of_none hnone
  rw [List.reverse_nil, List.nil_append] at heq hblocked
  have hpending : s.takeUnblocked.pending = s.pending := heq
  rw [hpending]
  exact hblocked

/-- A move that is blocked overwrites what another pending move reads. -/
theorem Ledger.exists_overwrites (h : s.Ledger moves) {move : Move} (hmove : move ∈ s.pending)
    (hblocked : s.isBlocked s.pending move = true) :
    ∃ other ∈ s.pending, move.Overwrites other := by
  simp only [isBlocked, List.any_eq_true] at hblocked
  obtain ⟨other, hother, hblocks⟩ := hblocked
  have hmeets : ¬ (other = move ∨ ∀ slot ∈ s.slotsNow other, slot ∉ move.written) := by
    rw [← blocks_eq_false_iff, hblocks]
    simp
  push Not at hmeets
  obtain ⟨hne, slot, hslot, hw⟩ := hmeets
  refine ⟨other, hother, hne.symm, slot, hw, ?_⟩
  cases hs : other.source with
  | constant constant => simp [slotsNow, hs] at hslot
  | missing => simp [slotsNow, hs] at hslot
  | register source =>
    have hexposed : s.isExposed other = true :=
      isExposed_iff.mpr ⟨slot, hslot, move, List.mem_append_left _ hmove, hw⟩
    have hnew : source ∉ s.relocated := by
      intro hkey
      rw [h.secure other (List.mem_append_left _ hother) source hkey hs] at hexposed
      contradiction
    simpa [slotsNow, hs, location_of_not_relocated hnew, Move.slotsRead] using hslot

/-- Without temporaries there are no copies. -/
theorem Ledger.carriers_eq_emitted (h : s.Ledger moves) (hused : s.used = 0) :
    s.carriers = s.emitted := by
  refine List.filter_eq_self.mpr fun move hmove => ?_
  by_contra hnot
  rw [Bool.not_eq_true] at hnot
  have hcopy : move ∈ s.copies.reverse := by simp [copies, Move.copies, hmove, hnot]
  have hslot : move.target ∈ temporarySlots s.temporary s.used :=
    h.filled ▸ List.mem_flatMap.mpr ⟨move, hcopy, move.target_mem_written⟩
  rw [hused] at hslot
  simp [temporarySlots] at hslot

/-- Moves without a cycle are never unblocked by saving a source. -/
theorem used_run_of_acyclic (hacyclic : Move.Acyclic moves) (s : Scheduling) (hsane : s.Sane moves)
    (hqueued : s.Queued) (hmoves : Move.Schedulable s.temporary moves) (hledger : s.Ledger moves)
    (hstuck : s.Stuck) : s.run.1.used = s.used := by
  fun_induction run s with
  | case1 s move ready hready fault hemit => rfl
  | case2 s move ready hready next hemit ih =>
    obtain ⟨t, ht, hemits, htemporary, htsane, htqueued⟩ :=
      exists_emit hsane hqueued hmoves hready
    obtain rfl : t = next := by
      rw [ht] at hemit
      exact Except.ok.inj hemit
    have htledger := (hledger.emits hsane hmoves hready ht hemits).rearranged
      t.rearranged_takeUnblocked
    rw [ih htsane htqueued (htemporary ▸ hmoves) htledger t.stuck_takeUnblocked]
    exact hemits.used
  | case3 s hready hpending => rfl
  | case4 s hready hpending ih =>
    have hsub : s.pending ⊆ moves := fun move hmove =>
      hsane.subset (List.mem_append_left _ hmove)
    obtain ⟨move, hmove, hlast⟩ := hacyclic.exists_not_overwrites hsub hpending
    obtain ⟨other, hother, hover⟩ := hledger.exists_overwrites hmove (hstuck hready move hmove)
    exact absurd hover (hlast other hother)

end Scheduling

namespace Scheduler

/-- Moves without a cycle need no temporary. -/
theorem used_of_acyclic {scheduler : Scheduler}
    (hmoves : Move.Schedulable scheduler.temporary scheduler.moves)
    (htemporary : 0 ≤ scheduler.temporary) (hacyclic : Move.Acyclic scheduler.moves) :
    scheduler.schedule.1.used = 0 := by
  have hrearranged := scheduler.start.rearranged_takeUnblocked
  have hstart : scheduler.start.Queued := ⟨by simp [start], by simp [start]⟩
  exact Scheduling.used_run_of_acyclic hacyclic _
    (hrearranged.sane (sane_start hmoves htemporary)) hstart.takeUnblocked hmoves
    (scheduler.ledger_start.rearranged hrearranged) scheduler.start.stuck_takeUnblocked

theorem schedule_of_nil {scheduler : Scheduler} (h : scheduler.moves = []) :
    scheduler.schedule.2 = .ok [] := by
  simp [schedule, start, Scheduling.takeUnblocked, Scheduling.unblocked, Scheduling.run, h]

/-- **Temporaries are used only for cycles.** Where no move overwrites what another one reads in a
circle, no temporary is used, and the schedule has as many moves as have been added. -/
theorem schedule_of_acyclic {temporary : Register} {moves : List Move} {scheduler : Scheduler}
    (hadd : addAll { temporary } moves = .ok scheduler) (hregs : ∀ move ∈ moves, move.InRegisters)
    (hacyclic : Move.Acyclic moves) :
    scheduler.schedule.1.used = 0 ∧
      ∃ scheduled, scheduler.schedule.2 = .ok scheduled ∧
        scheduled.length = moves.dedup.length := by
  obtain ⟨rfl, hmem, hmoves⟩ := schedulable_of_addAll hadd hregs
  have hacyclic' : Move.Acyclic scheduler.moves := by
    have hiff : ∀ move, (move ∈ scheduler.moves) = (move ∈ moves) := fun move => propext (hmem move)
    simpa only [Move.Acyclic, hiff] using hacyclic
  have hdedup := moves_perm_dedup hadd
  cases hlist : scheduler.moves with
  | nil =>
    refine ⟨used_of_direct fun move hmove => by simp [hlist] at hmove, [],
      schedule_of_nil hlist, ?_⟩
    rw [← hdedup.length_eq, hlist]
  | cons move rest =>
    -- A set with a move has a register below the temporaries.
    have htemporary : 0 ≤ scheduler.temporary := by
      have hbelow := hmoves.written_below (by simp [hlist] : move ∈ _) move.target_mem_written
      exact Int64.le_trans hbelow.1 (Int64.le_of_lt hbelow.2)
    have hused := used_of_acyclic hmoves htemporary hacyclic'
    obtain ⟨last, hschedule, -, -, hleft, hkept⟩ := schedule_eq hmoves htemporary
    have hledger := hkept _ (Scheduling.kept_ledger _) scheduler.ledger_start
    refine ⟨hused, last.emitted.reverse, by rw [hschedule], ?_⟩
    rw [hschedule] at hused
    have hlength := hledger.carried.length_eq
    rw [List.length_map, List.length_map, hleft, List.append_nil,
      hledger.carriers_eq_emitted hused, hdedup.length_eq] at hlength
    rw [List.length_reverse, hlength]

/-- Values that are shifted down by a slot, each onto the source of the next one, and one of which
is also moved elsewhere. -/
def shift : List Move :=
  [⟨4, .register 5, .object⟩, ⟨2, .register 3, .wide⟩, ⟨0, .register 1, .wide⟩,
    ⟨7, .register 5, .object⟩]

theorem schedule_of_acyclic_shift :
    addAll { temporary := 8 } shift = .ok { temporary := 8, moves := shift } ∧
    (∀ move ∈ shift, move.InRegisters) ∧ Move.Acyclic shift ∧
    (∃ first ∈ shift, ∃ second ∈ shift, first.Overwrites second) ∧
    (schedule { temporary := 8, moves := shift }).1.used = 0 ∧
    ∃ scheduled, (schedule { temporary := 8, moves := shift }).2 = .ok scheduled ∧
      scheduled.length = 4 := by
  have hadd : addAll { temporary := 8 } shift = .ok { temporary := 8, moves := shift } := by
    decide +kernel
  have hacyclic : Move.Acyclic shift :=
    Move.acyclic_of_rank (fun move => 8 - move.target.toInt.toNat) (by decide)
  obtain ⟨hused, scheduled, hscheduled, hlength⟩ :=
    schedule_of_acyclic hadd (by decide) hacyclic
  exact ⟨hadd, by decide, hacyclic, by decide, hused, scheduled, hscheduled, hlength⟩

end Scheduler
end RegisterAllocation
