import RegisterAllocation.Proofs.Moves
import RegisterAllocation.Proofs.Reading

/-!
# Register limits

Three comparisons keep an allocation within its limits: one where a value gets a fixed register, one
in the search for a free register and one of the temporaries at the end. All of them add to a
register number, and the sum can wrap around. It does so only if a value or a temporary takes the
last slot that there is, so the registers that are counted are those that are used exactly if that
slot is not (`Allocator.registersUsed_tight_iff`).
-/

namespace RegisterAllocation

/-! ## The last slot -/

/-- The end of a value wraps around where it takes the last slot. -/
theorem MoveType.fits_iff {type : MoveType} {register : Register} :
    type.Fits register ↔ Int64.maxValue ∉ type.footprint register := by
  rw [show Int64.maxValue = 9223372036854775807 from rfl]
  cases type <;>
    simp only [Fits, width, footprint, List.mem_cons, List.not_mem_nil, or_false] <;> grind

theorem MoveType.end_sub_one_mem_footprint (type : MoveType) (register : Register) :
    register + type.width - 1 ∈ type.footprint register := by
  cases type <;> simp only [width, footprint, List.mem_cons, List.not_mem_nil, or_false] <;> grind

namespace Move.IsSchedule

variable {moves scheduled : List Move} {temporary : Register} {used : Int64}

/-- A schedule uses registers below the temporaries, and temporaries. -/
theorem slot_cases (h : IsSchedule moves scheduled temporary used) {move : Move}
    (hmove : move ∈ scheduled) {slot : Register} (hslot : slot ∈ move.written ++ move.slotsRead) :
    (0 ≤ slot ∧ slot < temporary) ∨ IsTemporarySlot temporary used slot := by
  obtain hwritten | hread := List.mem_append.mp hslot
  · obtain ⟨other, hother, hwritten⟩ | htemporary := h.writes move hmove slot hwritten
    · exact .inl (h.below other hother slot hwritten)
    · exact .inr htemporary
  · exact h.reads move hmove slot hread

/-- The end of the temporaries wraps around only if the last slot is one of them. -/
theorem end_le (h : IsSchedule moves scheduled temporary used) (h0 : 0 ≤ temporary)
    (hlast : ∀ move ∈ scheduled, Int64.maxValue ∉ move.written) : temporary ≤ temporary + used := by
  by_contra hwraps
  have hmax : Int64.maxValue = 9223372036854775807 := rfl
  have hused := h.used_nonneg
  -- the temporaries go on beyond the last slot, so it is one of them, and all of them are written
  have hmem : IsTemporarySlot temporary used Int64.maxValue := by
    refine ⟨Int64.maxValue - temporary, ?_, ?_, ?_⟩ <;> rw [hmax] <;> grind
  obtain ⟨move, hmove, hwritten⟩ := h.exists_writer hmem
  exact hlast move hmove hwritten

/-- Registers in use and temporaries are below the end of the temporaries. -/
theorem slot_lt (h : IsSchedule moves scheduled temporary used) (h0 : 0 ≤ temporary)
    (hend : temporary ≤ temporary + used) {slot : Register}
    (hslot : (0 ≤ slot ∧ slot < temporary) ∨ IsTemporarySlot temporary used slot) :
    0 ≤ slot ∧ slot < temporary + used := by
  have hused := h.used_nonneg
  obtain hslot | ⟨offset, hoffset, hlt, rfl⟩ := hslot
  · grind
  · grind

end Move.IsSchedule

/-! ## The slots of an allocation -/

namespace Allocator

/-- A slot that is taken by a piece of a value, or that a scheduled move reads or writes. -/
def UsesSlot (allocator : Allocator) (u : CodeUnit) (slot : Register) : Prop :=
  (∃ v pieces, allocator.pieces u v = .ok pieces ∧
    ∃ piece ∈ pieces, slot ∈ (u.value v).type.footprint piece.register) ∨
  ∃ position moves, allocator.scheduledMoves u position = .ok moves ∧
    ∃ move ∈ moves, slot ∈ move.written ++ move.slotsRead

/-- The slots of an allocation are those of its pieces and of its scheduled moves. -/
theorem usesSlot_iff {config : Config} {allocation : Allocation} {u : CodeUnit} {slot : Register} :
    (holding config allocation).UsesSlot u slot ↔
      (∃ piece ∈ allocation.pieces, slot ∈ (u.value piece.value).type.footprint piece.register) ∨
      ∃ position, ∃ move ∈ Allocation.scheduledAt allocation.moveSets position,
        slot ∈ move.written ++ move.slotsRead := by
  refine or_congr ⟨?_, ?_⟩ ?_
  · rintro ⟨v, _, hpieces, piece, hown, hslot⟩
    cases hpieces
    obtain ⟨hpiece, rfl⟩ := Piece.mem_ofValue.mp hown
    exact ⟨piece, hpiece, hslot⟩
  · rintro ⟨piece, hpiece, hslot⟩
    exact ⟨piece.value, _, rfl, piece, Piece.mem_ofValue.mpr ⟨hpiece, rfl⟩, hslot⟩
  · simp [scheduledMoves_eq]

end Allocator

namespace Allocation.Recorded

variable {u : CodeUnit} {config : Config} {allocation : Allocation} {scanned table : MoveTable}

/-- The slots of an allocation that does not use the last slot are among the registers that it
counts. -/
theorem slot_lt (h : Recorded u config allocation scanned table)
    (hlast : ¬ (Allocator.holding config allocation).UsesSlot u Int64.maxValue) {slot : Register}
    (hslot : (Allocator.holding config allocation).UsesSlot u slot) :
    0 ≤ slot ∧ slot < allocation.registersUsed := by
  rw [Allocator.usesSlot_iff, not_or] at hlast
  obtain ⟨hpieces, hmoves⟩ := hlast
  rw [Allocator.usesSlot_iff] at hslot
  obtain ⟨piece, hpiece, hslot⟩ | ⟨position, move, hmove, hslot⟩ := hslot
  · have hfits : (u.value piece.value).type.Fits piece.register :=
      MoveType.fits_iff.mpr fun hmem => hpieces ⟨piece, hpiece, hmem⟩
    obtain ⟨hle, hlt⟩ := (MoveType.mem_footprint_iff_of_fits hfits).mp hslot
    refine ⟨Int64.le_trans (h.nonneg piece hpiece) hle, ?_⟩
    exact Int64.lt_of_lt_of_le hlt (Int64.le_trans (h.below piece hpiece) h.temporary_le)
  · by_cases hmem : position ∈ allocation.moveSets.map (·.position)
    · obtain ⟨set, hset, rfl, hscheduled⟩ := exists_set_of_mem hmem
      obtain ⟨temporaries, hschedule, hle⟩ := h.scheduled set hset
      rw [hscheduled] at hmove
      have hend := hschedule.end_le h.temporary_nonneg fun move hmove hwritten =>
        hmoves ⟨set.position, move, hscheduled ▸ hmove, List.mem_append_left _ hwritten⟩
      obtain ⟨hnonneg, hlt⟩ :=
        hschedule.slot_lt h.temporary_nonneg hend (hschedule.slot_cases hmove hslot)
      exact ⟨hnonneg, Int64.lt_of_lt_of_le hlt hle⟩
    · rw [scheduledAt_of_not_mem hmem] at hmove
      exact absurd hmove List.not_mem_nil

/-- The last register that an allocation counts is used. -/
theorem uses_last (h : Recorded u config allocation scanned table) :
    allocation.registersUsed = 0 ∨
      (Allocator.holding config allocation).UsesSlot u (allocation.registersUsed - 1) := by
  have htemporary : allocation.temporary = 0 ∨
      (Allocator.holding config allocation).UsesSlot u (allocation.temporary - 1) := by
    rw [h.temporary_eq]
    obtain hzero | ⟨piece, hpiece, hreached⟩ := (firstTemporary_spec u allocation.pieces).2.2
    · exact .inl hzero
    · rw [hreached]
      refine .inr (Allocator.usesSlot_iff.mpr (.inl ⟨piece, hpiece, ?_⟩))
      exact MoveType.end_sub_one_mem_footprint _ _
  obtain hused | ⟨set, hset, temporaries, hschedule, hused⟩ := h.used
  · rw [hused]
    exact htemporary
  · by_cases hnone : temporaries = 0
    · rw [hused, hnone, Int64.add_zero]
      exact htemporary
    · -- the last temporary of the set that needs most
      have hmem : IsTemporarySlot allocation.temporary temporaries
          (allocation.registersUsed - 1) := by
        have hnonneg := hschedule.used_nonneg
        refine ⟨temporaries - 1, ?_, ?_, ?_⟩ <;> grind
      obtain ⟨move, hmove, hwritten⟩ := hschedule.exists_writer hmem
      refine .inr (Allocator.usesSlot_iff.mpr (.inr ⟨set.position, move, ?_, ?_⟩))
      · rw [scheduledAt_of_mem h.nodup_positions hset]
        exact hmove
      · exact List.mem_append_left _ hwritten

/-- The last slot is out of reach if no piece ends there and half of the register numbers are
enough. -/
theorem not_usesSlot_last (h : Recorded u config allocation scanned table)
    (hfits : ∀ piece ∈ allocation.pieces, piece.Fits u.pool)
    (hmax : config.maxRegisters < 2 ^ 62) :
    ¬ (Allocator.holding config allocation).UsesSlot u Int64.maxValue := by
  rw [Allocator.usesSlot_iff]
  rintro (⟨piece, hpiece, hslot⟩ | ⟨position, move, hmove, hslot⟩)
  · exact MoveType.fits_iff.mp (hfits piece hpiece).2 hslot
  · obtain ⟨temporaries, hschedule⟩ := h.schedule position
    have hlimit := h.limit
    have hle := h.temporary_le
    have hused := hschedule.used_le
    have hlast : Int64.maxValue = 9223372036854775807 := rfl
    obtain ⟨-, hlt⟩ | ⟨offset, hoffset, hlt, heq⟩ := hschedule.slot_cases hmove hslot
    · grind
    · grind

end Allocation.Recorded

namespace Allocator

/-- **The registers that an allocation counts.** They are within the limit, and the last of them is
used. Every slot of a piece and of a scheduled move is among them if and only if the last slot that
there is stays unused. It does if the unit is one that is read, no pinned value ends beyond it and
half of the register numbers are enough. -/
theorem registersUsed_tight_iff {allocator next : Allocator} {u : CodeUnit}
    (hregisters : 0 ≤ allocator.config.registers) (h : allocator.run u = (next, none)) :
    ∃ used, next.registersUsed u = .ok used ∧ used ≤ allocator.config.maxRegisters ∧
      (used = 0 ∨ next.UsesSlot u (used - 1)) ∧
      ((∀ slot, next.UsesSlot u slot → 0 ≤ slot ∧ slot < used) ↔
        ¬ next.UsesSlot u Int64.maxValue) ∧
      ∀ expr, CodeUnit.ofSExpr expr = .ok u →
        (∀ v ∈ u.values, ∀ register ∈ (u.value v).fixed, (u.value v).type.Fits register) →
        u.NeverWraps allocator.config →
        allocator.config.maxRegisters < 2 ^ 62 → ¬ next.UsesSlot u Int64.maxValue := by
  obtain ⟨allocation, hallocate, rfl⟩ := run_eq_none h
  obtain ⟨scanned, table, hrecorded⟩ := Allocation.recorded_of_allocate hregisters hallocate
  refine ⟨_, rfl, hrecorded.limit, hrecorded.uses_last, ⟨fun hall hlast => ?_, fun hlast slot =>
    hrecorded.slot_lt hlast⟩, fun expr hread hpinned hwraps hmax => ?_⟩
  · exact absurd (hall _ hlast).2 (Int64.not_lt.mpr (Int64.le_maxValue _))
  · have hsound := hrecorded.sound (CodeUnit.wellFormed_of_read hread hpinned hwraps)
      fun position _ => CodeUnit.not_flipsAt_of_read hread position
    exact hrecorded.not_usesSlot_last hsound.fits hmax

/-- Two wide values, one of them pinned, that change places. -/
def swapForm : SExpr :=
  .list [.symbol "unit" 1, .symbol "swap" 1,
    .list [.symbol "intervals" 2,
      .list [.symbol "a" 2, .symbol "wide" 2, .int 1 2, .int 8 2] 2,
      .list [.symbol "b" 2, .symbol "wide" 2, .int 1 2, .int 8 2] 2] 2,
    .list [.symbol "fixed" 3, .list [.symbol "a" 3, .int 4 3] 3] 3,
    .list [.symbol "copies" 4,
      .list [.int 5 4, .symbol "a" 4, .symbol "b" 4] 4,
      .list [.int 5 4, .symbol "b" 4, .symbol "a" 4] 4] 4] 1

/-- What is read from `swapForm`. -/
def swap : CodeUnit where
  name := "swap"
  pool := {
    values := #[
      { number := 0, name := "a", type := .wide, start := 1, stop := 8, fixed := some 4 },
      { number := 1, name := "b", type := .wide, start := 1, stop := 8 }] }
  values := [0, 1]
  copies := [⟨5, 0, 1⟩, ⟨5, 1, 0⟩]

theorem registersUsed_tight_swap : CodeUnit.ofSExpr swapForm = .ok swap ∧ ∃ next : Allocator,
    Allocator.run {} swap = (next, none) ∧ next.registersUsed swap = .ok 8 ∧
    (∀ slot, next.UsesSlot swap slot → 0 ≤ slot ∧ slot < 8) ∧ next.UsesSlot swap 7 := by
  have hread : CodeUnit.ofSExpr swapForm = .ok swap := by decide +kernel
  have hu : swap.WellFormed {} := by decide
  have hnone : (Allocator.run {} swap).2 = none := by decide +kernel
  have hcount : (Allocator.run {} swap).1.registersUsed swap = .ok 8 := by decide +kernel
  obtain ⟨used, hused, -, htop, hiff, hlast⟩ :=
    @registersUsed_tight_iff {} _ swap (by decide) (Prod.ext rfl hnone)
  obtain rfl : 8 = used := Except.ok.inj (hcount.symm.trans hused)
  refine ⟨hread, _, Prod.ext rfl hnone, hcount, hiff.mpr ?_, htop.resolve_left (by decide)⟩
  exact hlast swapForm hread hu.pinned hu.neverWraps (by grind)

/-- A value that is pinned to the last slot. -/
def highForm : SExpr :=
  .list [.symbol "unit" 1, .symbol "high" 1,
    .list [.symbol "intervals" 2,
      .list [.symbol "x" 2, .symbol "single" 2, .int 1 2, .int 5 2] 2] 2,
    .list [.symbol "fixed" 3, .list [.symbol "x" 3, .int 9223372036854775807 3] 3] 3] 1

/-- What is read from `highForm`. -/
def high : CodeUnit where
  name := "high"
  pool := {
    values := #[
      { number := 0, name := "x", type := .single, start := 1, stop := 5,
        fixed := some 9223372036854775807 }] }
  values := [0]

/-- A value that is pinned to the last slot gets it whatever the limits are, and is not counted. -/
theorem last_slot_not_counted : CodeUnit.ofSExpr highForm = .ok high ∧
    ({} : Config).check = .ok () ∧ ∃ next : Allocator, Allocator.run {} high = (next, none) ∧
    next.registersUsed high = .ok 0 ∧ next.UsesSlot high Int64.maxValue := by
  have hread : CodeUnit.ofSExpr highForm = .ok high := by decide +kernel
  have hnone : (Allocator.run {} high).2 = none := by decide +kernel
  have hcount : (Allocator.run {} high).1.registersUsed high = .ok 0 := by decide +kernel
  have hpieces : (Allocator.run {} high).1.pieces high 0 = .ok [⟨0, 1, 5, Int64.maxValue⟩] := by
    decide +kernel
  refine ⟨hread, by decide, _, Prod.ext rfl hnone, hcount, .inl ⟨0, _, hpieces, ?_⟩⟩
  exact ⟨_, List.mem_cons_self, MoveType.self_mem_footprint _ _⟩

end Allocator
end RegisterAllocation
