import RegisterAllocation.Proofs.Schedule.Meaning
import Mathlib.Data.List.Dedup

/-!
# What a schedule consists of

A schedule has one move for each move of the set and, apart from these, only copies of sources to
temporaries (`Move.Accounts`). The copies fill the temporaries one after another, without gaps, and
no source is copied twice.

The reason for the last part is that contents that have been put elsewhere are safe there: their new
place is a temporary or the target of a move that has been emitted, and no move that is left writes
to it (`Scheduling.Ledger.secure`). So a source that is in the way is still where it was at the
beginning.
-/

namespace RegisterAllocation

namespace Move

def constant? (move : Move) : Option Constant :=
  match move.source with
  | .constant constant => some constant
  | _ => none

/-- What a scheduled move has in common with the move that it carries out: the target, the type and
the constant. -/
def outline (move : Move) : Register × MoveType × Option Constant :=
  (move.target, move.type, move.constant?)

theorem outline_ofRegisters (target source : Register) (type : MoveType) :
    (ofRegisters target source type).outline = (target, type, none) := by
  rw [outline, constant?, ofRegisters]
  split <;> simp_all

/-- Whether the target of a move is a register below the temporaries. -/
def isBelow (temporary : Register) (move : Move) : Bool :=
  0 ≤ move.target && move.target < temporary

/-- The moves of a schedule that carry out a move of the set. -/
def carriers (temporary : Register) (scheduled : List Move) : List Move :=
  scheduled.filter (·.isBelow temporary)

/-- The moves of a schedule that copy a source to a temporary. -/
def copies (temporary : Register) (scheduled : List Move) : List Move :=
  scheduled.filter (!·.isBelow temporary)

theorem isBelow_iff {temporary : Register} {move : Move} :
    move.isBelow temporary = true ↔ 0 ≤ move.target ∧ move.target < temporary := by
  simp [isBelow]

end Move

/-- A slot is written by exactly one move of a schedule and not read until then. -/
def Move.IsWrittenOnce (scheduled : List Move) (slot : Register) : Prop :=
  ∃ before move after, scheduled = before ++ move :: after ∧
    slot ∈ move.written ∧ slot ∉ move.slotsRead ∧
    (∀ other ∈ before, slot ∉ other.written ∧ slot ∉ other.slotsRead) ∧
    ∀ other ∈ after, slot ∉ other.written

/-- The slots of `used` temporaries from `temporary` on. -/
def temporarySlots (temporary : Register) (used : Int64) : List Register :=
  (List.range used.toInt.toNat).map fun k => temporary + Int64.ofNat k

/-- The temporary slots are those in use. -/
theorem mem_temporarySlots {temporary slot : Register} {used : Int64} (hused : 0 ≤ used) :
    slot ∈ temporarySlots temporary used ↔ IsTemporarySlot temporary used slot := by
  rw [Int64.le_iff_toInt_le, Int64.toInt_zero] at hused
  have hbound := used.toInt_lt
  simp only [temporarySlots, List.mem_map, List.mem_range]
  constructor
  · rintro ⟨k, hk, rfl⟩
    have hword : (Int64.ofNat k).toInt = k := Int64.toInt_ofNat_of_lt (by omega)
    refine ⟨Int64.ofNat k, ?_, ?_, rfl⟩
    · rw [Int64.le_iff_toInt_le, Int64.toInt_zero, hword]
      omega
    · rw [Int64.lt_iff_toInt_lt, hword]
      omega
  · rintro ⟨offset, h0, hlt, rfl⟩
    rw [Int64.le_iff_toInt_le, Int64.toInt_zero] at h0
    rw [Int64.lt_iff_toInt_lt] at hlt
    refine ⟨offset.toInt.toNat, by omega, ?_⟩
    rw [← Int64.ofInt_eq_ofNat, Int.toNat_of_nonneg h0, Int64.ofInt_toInt]

/-- Temporary slots are numbered one after another as long as they do not wrap around. -/
theorem toInt_temporarySlots {temporary : Register} {used : Int64} (htemporary : 0 ≤ temporary)
    (hwrap : temporary.toInt + used.toInt ≤ 2 ^ 63) :
    (temporarySlots temporary used).map Int64.toInt =
      (List.range used.toInt.toNat).map fun k : Nat => temporary.toInt + k := by
  rw [Int64.le_iff_toInt_le, Int64.toInt_zero] at htemporary
  rw [temporarySlots, List.map_map]
  refine List.map_congr_left fun k hk => ?_
  rw [List.mem_range] at hk
  rw [Function.comp_apply, Int64.toInt_add, Int64.toInt_ofNat_of_lt (by omega),
    Int.bmod_eq_of_le (by omega) (by omega)]

/-- A footprint is a run of slots. -/
theorem footprint_eq_temporarySlots (type : MoveType) (register : Register) :
    type.footprint register = temporarySlots register type.width := by
  have hzero : register + Int64.ofNat 0 = register := Int64.add_zero register
  cases type with
  | wide => exact congrArg (· :: [register + 1]) hzero.symm
  | single => exact congrArg (· :: []) hzero.symm
  | object => exact congrArg (· :: []) hzero.symm

/-- More temporaries are taken behind the others. -/
theorem temporarySlots_add (temporary : Register) {used next : Int64} (type : MoveType)
    (hused : 0 ≤ used) (hnext : next.toInt = used.toInt + type.width.toInt) :
    temporarySlots temporary next =
      temporarySlots temporary used ++ type.footprint (temporary + used) := by
  rw [Int64.le_iff_toInt_le, Int64.toInt_zero] at hused
  have hword : Int64.ofNat used.toInt.toNat = used := by
    rw [← Int64.ofInt_eq_ofNat, Int.toNat_of_nonneg hused, Int64.ofInt_toInt]
  have hcount : next.toInt.toNat = used.toInt.toNat + type.width.toInt.toNat := by
    have hwidth := Int64.le_iff_toInt_le.mp type.one_le_width.1
    rw [show (1 : Int64).toInt = 1 from rfl] at hwidth
    omega
  rw [footprint_eq_temporarySlots, temporarySlots, hcount, List.range_add, List.map_append,
    List.map_map]
  refine congrArg _ (List.map_congr_left fun k _ => ?_)
  rw [Function.comp_apply, Int64.ofNat_add, hword, Int64.add_assoc]

namespace Scheduling

variable {moves : List Move} {s t : Scheduling}

/-- The emitted moves that carry out a move of the set, last one first. -/
def carriers (s : Scheduling) : List Move := Move.carriers s.temporary s.emitted

/-- The emitted copies of sources to temporaries, last one first. -/
def copies (s : Scheduling) : List Move := Move.copies s.temporary s.emitted

/-- The registers whose contents have been put elsewhere. -/
def relocated (s : Scheduling) : List Register := s.locations.map Prod.fst

/-- The accounts of scheduling: what has been emitted, and what is still to come. -/
structure Ledger (moves : List Move) (s : Scheduling) : Prop where
  carried : ((s.carriers ++ s.left).map Move.outline).Perm (moves.map Move.outline)
  filled : s.copies.reverse.flatMap Move.written = temporarySlots s.temporary s.used
  /-- A copy reads what a move of the set reads, from where it was at the beginning. -/
  copied : ∀ copy ∈ s.copies, ∃ source ∈ s.relocated, copy.source = .register source ∧
    ∃ move ∈ moves, move.source = .register source ∧ copy.slotsRead = move.slotsRead
  once : (s.copies.map (·.source)).Nodup
  /-- Contents that have been put elsewhere are not overwritten there. -/
  secure : ∀ move ∈ s.left, ∀ source ∈ s.relocated, move.source = .register source →
    s.isExposed move = false
  apart : s.emitted.Pairwise fun later earlier => ∀ slot ∈ later.written, slot ∉ earlier.written
  /-- Only registers are written after they have been read. -/
  fresh : s.emitted.Pairwise fun later earlier => ∀ slot ∈ later.written,
    slot ∈ earlier.slotsRead → 0 ≤ slot ∧ slot < s.temporary

/-! ## The steps -/

/-- What was never saved is where it was. -/
theorem location_of_not_relocated {source : Register} (h : source ∉ s.relocated) :
    s.location source = source := by
  have hnone : s.locations.lookup source = none := by
    rw [List.lookup_eq_none_iff]
    intro entry hentry
    have hne : source ≠ entry.1 := fun heq => h (heq ▸ List.mem_map_of_mem hentry)
    simpa using hne
  rw [location, hnone, Option.getD_none]

/-- A new arrangement keeps the ledger. -/
theorem Ledger.rearranged (h : s.Ledger moves) (hst : Rearranged s t) : t.Ledger moves := by
  have hcarriers : t.carriers = s.carriers := by
    rw [Scheduling.carriers, Scheduling.carriers, hst.emitted, hst.temporary]
  have hcopies : t.copies = s.copies := by rw [copies, copies, hst.emitted, hst.temporary]
  have hrelocated : t.relocated = s.relocated := by rw [relocated, relocated, hst.locations]
  constructor
  · rw [hcarriers]
    exact ((hst.left.append_left _).map _).trans h.carried
  · rw [hcopies, hst.temporary, hst.used]
    exact h.filled
  · rw [hcopies, hrelocated]
    exact h.copied
  · rw [hcopies]
    exact h.once
  · intro move hmove source hsource hreads
    have hsafe := h.secure move (hst.left.mem_iff.mp hmove) source (hrelocated ▸ hsource) hreads
    rw [Bool.eq_false_iff, Ne, isExposed_iff] at hsafe ⊢
    simpa [hst.slotsNow, hst.left.mem_iff] using hsafe
  · rw [hst.emitted]
    exact h.apart
  · rw [hst.emitted, hst.temporary]
    exact h.fresh

/-- What emitting a move adds to the accounts. Where its source is looked for elsewhere from now on,
all readers that are left have its width. -/
theorem emit_accounts {move : Move} (h : s.emit move = .ok t) :
    (∃ copy, t.emitted = copy :: s.emitted ∧ copy.outline = move.outline) ∧
    (t.locations = s.locations ∨ ∃ source, move.source = .register source ∧
      t.locations = (source, move.target) :: s.locations ∧
      ∀ other ∈ s.left, other.source = .register source → other.type.width = move.type.width) := by
  unfold emit at h
  cases hs : move.source with
  | missing => simp [hs] at h
  | constant constant =>
    simp only [hs, Except.ok.injEq] at h
    subst h
    exact ⟨⟨move, rfl, rfl⟩, .inl rfl⟩
  | register source =>
    simp only [hs, Except.ok.injEq] at h
    subst h
    refine ⟨⟨_, rfl, ?_⟩, ?_⟩
    · rw [Move.outline_ofRegisters, Move.outline, Move.constant?, hs]
    · dsimp only
      split
      · exact .inl rfl
      · next hsame =>
        refine .inr ⟨source, rfl, rfl, fun other hother hreads => ?_⟩
        by_contra hne
        have hdiffers : other ≠ move := fun heq => hne (by rw [heq])
        refine hsame (List.any_eq_true.mpr ⟨other, hother, ?_⟩)
        simp [hdiffers, hreads, hne]

/-- A move that is emitted is entered in the ledger. -/
theorem Ledger.emits {move : Move} {ready : List Move} (h : s.Ledger moves) (hsane : s.Sane moves)
    (hmoves : Move.Schedulable s.temporary moves) (hready : s.ready = move :: ready)
    (hemit : ({ s with ready } : Scheduling).emit move = .ok t)
    (hst : Emits move { s with ready } t) : t.Ledger moves := by
  obtain ⟨⟨copy, hemitted, houtline⟩, hlocations⟩ := emit_accounts hemit
  have htemporary : t.temporary = s.temporary := hst.temporary
  have hmem : ∀ {m : Move}, m = move ∨ m ∈ t.left → m ∈ s.left := (hst.mem_left_iff hready).mpr
  have hmove : move ∈ moves := hsane.subset (hmem (.inl rfl))
  have hwritten : copy.written = move.written := by
    simp only [Move.outline, Prod.mk.injEq] at houtline
    rw [Move.written, Move.written, houtline.1, houtline.2.1]
  have hbelow : copy.isBelow s.temporary = true := by
    rw [Move.isBelow_iff]
    exact hmoves.written_below hmove (hwritten ▸ copy.target_mem_written)
  have hcarriers : t.carriers = copy :: s.carriers := by
    simp [Scheduling.carriers, Move.carriers, hemitted, htemporary, hbelow]
  have hcopies : t.copies = s.copies := by
    simp [copies, Move.copies, hemitted, htemporary, hbelow]
  constructor
  · rw [hcarriers]
    have hperm : ((copy :: (s.carriers ++ t.left)).map Move.outline).Perm
        ((s.carriers ++ s.left).map Move.outline) := by
      rw [List.map_cons, houtline, ← List.map_cons]
      refine List.Perm.map _ (List.perm_middle.symm.trans ?_)
      exact (hst.left_perm hready).symm.append_left _
    exact hperm.trans h.carried
  · rw [hcopies, htemporary, hst.used]
    exact h.filled
  · rw [hcopies]
    intro other hother
    obtain ⟨source, hsource, hrest⟩ := h.copied other hother
    refine ⟨source, ?_, hrest⟩
    obtain heq | ⟨key, -, heq, -⟩ := hlocations
    · rwa [relocated, heq]
    · rw [relocated, heq]
      exact List.mem_cons_of_mem _ hsource
  · rw [hcopies]
    exact h.once
  · intro reader hreader source hsource hreads
    rw [Bool.eq_false_iff, Ne, isExposed_iff]
    rintro ⟨slot, hslot, other, hother, hw⟩
    -- What was safe before stays safe.
    have hold : source ∈ s.relocated → False := by
      intro hkey
      have hsafe := h.secure reader (hmem (.inr hreader)) source hkey hreads
      refine hst.not_written hready hsane hmoves hother hreader (fun slot' hslot' hw' => ?_) slot
        hslot hw
      rw [Bool.eq_false_iff, Ne, isExposed_iff] at hsafe
      exact hsafe ⟨slot', hslot', other, hmem (.inr hother), hw'⟩
    obtain heq | ⟨key, hkey, heq, hwidths⟩ := hlocations
    · rw [relocated, heq] at hsource
      exact hold hsource
    · rw [relocated, heq, List.map_cons, List.mem_cons] at hsource
      obtain rfl | hsource := hsource
      · -- The readers of the emitted move find what they need in its target.
        have hwidth : reader.type.width = move.type.width :=
          hwidths reader (hst.left ▸ hreader) hreads
        rw [slotsNow_of_reader heq hreads, MoveType.footprint_congr hwidth] at hslot
        refine hmoves.compatible move hmove other
          (hsane.subset (hmem (.inr hother))) ?_ slot hslot hw
        exact fun hsame => hst.not_mem_left hready hsane (hsame ▸ hother)
      · exact hold hsource
  · rw [hemitted]
    refine List.pairwise_cons.mpr ⟨fun earlier hearlier slot hslot hw => ?_, h.apart⟩
    rw [hwritten] at hslot
    obtain ⟨other, hother, hleft, hw'⟩ | htemp := hsane.writes earlier hearlier slot hw
    · refine hmoves.compatible move hmove other hother ?_ slot hslot hw'
      exact fun hsame => hleft (hsame ▸ hmem (.inl rfl))
    · have hregister := hmoves.written_below hmove hslot
      exact hsane.not_isTemporary hregister.1 hregister.2 htemp
  · rw [hemitted, htemporary]
    refine List.pairwise_cons.mpr ⟨fun earlier _ slot hslot _ => ?_, h.fresh⟩
    exact hmoves.written_below hmove (hwritten ▸ hslot)

/-- A source that is saved is entered in the ledger. -/
theorem Ledger.saves {source : Register} {type : MoveType} (h : s.Ledger moves)
    (hsane : s.Sane moves) (hmoves : Move.Schedulable s.temporary moves)
    (hst : Saves source type s t) : t.Ledger moves := by
  obtain ⟨reader, hreader, hreads, hwidth, hexposed⟩ := hst.reader
  -- The source is in the way, so it is where it was at the beginning.
  have hnew : source ∉ s.relocated := by
    intro hkey
    rw [h.secure reader hreader source hkey hreads] at hexposed
    contradiction
  have hemitted := hst.emitted
  rw [location_of_not_relocated hnew] at hemitted
  have hrelocated : t.relocated = source :: s.relocated := by
    rw [relocated, hst.locations, List.map_cons, relocated]
  have hnotBelow :
      Move.isBelow s.temporary ⟨s.temporary + s.used, .register source, type⟩ = false := by
    rw [Bool.eq_false_iff, Ne, Move.isBelow_iff]
    exact hst.fresh_not_below hsane (MoveType.self_mem_footprint _ _)
  have hcarriers : t.carriers = s.carriers := by
    simp [Scheduling.carriers, Move.carriers, hemitted, hst.temporary, hnotBelow]
  have hcopies : t.copies = ⟨s.temporary + s.used, .register source, type⟩ :: s.copies := by
    simp [copies, Move.copies, hemitted, hst.temporary, hnotBelow]
  constructor
  · rw [hcarriers, hst.left]
    exact h.carried
  · rw [hcopies, List.reverse_cons, List.flatMap_append, h.filled, hst.temporary,
      temporarySlots_add s.temporary type hsane.used_nonneg (hst.used_toInt hsane).1]
    simp [Move.written]
  · rw [hcopies, hrelocated]
    intro copy hcopy
    obtain rfl | hcopy := List.mem_cons.mp hcopy
    · refine ⟨source, List.mem_cons_self, rfl, reader, hsane.subset hreader, hreads, ?_⟩
      simp only [Move.slotsRead, hreads]
      exact MoveType.footprint_congr hwidth.symm _
    · obtain ⟨key, hkey, hrest⟩ := h.copied copy hcopy
      exact ⟨key, List.mem_cons_of_mem _ hkey, hrest⟩
  · rw [hcopies, List.map_cons, List.nodup_cons]
    refine ⟨fun hmem => ?_, h.once⟩
    obtain ⟨copy, hcopy, heq⟩ := List.mem_map.mp hmem
    obtain ⟨key, hkey, hsource, -⟩ := h.copied copy hcopy
    rw [hsource, Source.register.injEq] at heq
    exact hnew (heq ▸ hkey)
  · rw [hst.left, hrelocated]
    intro move hmove key hkey hsource
    by_cases hsame : move.source = .register source
    · exact hst.not_isExposed hsane hmoves hmove hsame
    · have hold : key ∈ s.relocated :=
        (List.mem_cons.mp hkey).resolve_left fun heq => hsame (heq ▸ hsource)
      have hsafe := h.secure move hmove key hold hsource
      rw [Bool.eq_false_iff, Ne, isExposed_iff] at hsafe ⊢
      rwa [hst.slotsNow_of_not_reader hsame, hst.left]
  · rw [hemitted]
    refine List.pairwise_cons.mpr ⟨fun earlier hearlier slot hslot hw => ?_, h.apart⟩
    obtain ⟨other, hother, -, hw'⟩ | htemp := hsane.writes earlier hearlier slot hw
    · exact hst.fresh_not_below hsane hslot (hmoves.written_below hother hw')
    · exact hst.fresh_not_isTemporary hsane hslot htemp
  · rw [hemitted, hst.temporary]
    refine List.pairwise_cons.mpr ⟨fun earlier hearlier slot hslot hr => ?_, h.fresh⟩
    obtain hregister | htemp := hsane.reads earlier hearlier slot hr
    · exact hregister
    · exact absurd htemp (hst.fresh_not_isTemporary hsane hslot)

theorem kept_ledger (moves : List Move) : Kept moves (Ledger moves) where
  rearranged := fun hst h => h.rearranged hst
  emits := fun hsane hmoves _ hready hemit hst h => h.emits hsane hmoves hready hemit hst
  saves := fun hsane hmoves hst h => h.saves hsane hmoves hst

/-! ## Finished schedules -/

/-- A temporary is written by one copy, which does not read it, and no move before the copy does. -/
theorem Ledger.isWrittenOnce (h : s.Ledger moves) (hsane : s.Sane moves)
    (hmoves : Move.Schedulable s.temporary moves) {slot : Register} (hslot : s.IsTemporary slot) :
    Move.IsWrittenOnce s.emitted.reverse slot := by
  have hnot : ¬ (0 ≤ slot ∧ slot < s.temporary) := fun hregister =>
    hsane.not_isTemporary hregister.1 hregister.2 hslot
  have hmem := (mem_temporarySlots hsane.used_nonneg).mpr hslot
  rw [← h.filled] at hmem
  obtain ⟨copy, hcopy, hw⟩ := List.mem_flatMap.mp hmem
  rw [List.mem_reverse] at hcopy
  obtain ⟨before, after, hsplit⟩ :=
    List.append_of_mem (List.mem_reverse.mpr (List.mem_filter.mp hcopy).1)
  have hapart := List.pairwise_reverse.mpr h.apart
  have hfresh := List.pairwise_reverse.mpr h.fresh
  rw [hsplit, List.pairwise_append, List.pairwise_cons] at hapart hfresh
  refine ⟨before, copy, after, hsplit, hw, fun hr => ?_,
    fun other hother => ⟨fun hw' => ?_, ?_⟩, ?_⟩
  · obtain ⟨source, -, -, move, hmove, -, hreads⟩ := h.copied copy hcopy
    exact hnot (hmoves.read_below hmove (hreads ▸ hr))
  · exact hapart.2.2 other hother copy List.mem_cons_self slot hw hw'
  · exact fun hr => hnot (hfresh.2.2 other hother copy List.mem_cons_self slot hw hr)
  · exact fun other hother hw' => hapart.2.1.1 other hother slot hw' hw

/-- The widths of the copies add up to the temporaries. -/
theorem Ledger.sum_widths (h : s.Ledger moves) (hsane : s.Sane moves) :
    (s.copies.map (·.type.width.toInt)).sum = s.used.toInt := by
  have hused := hsane.used_nonneg
  rw [Int64.le_iff_toInt_le, Int64.toInt_zero] at hused
  rw [← List.sum_reverse, ← List.map_reverse, Scheduler.sum_widths, h.filled, temporarySlots,
    List.length_map, List.length_range, Int.toNat_of_nonneg hused]

end Scheduling

/-- The accounts of a schedule: `scheduled` has one move for each of `moves`, and copies of sources
to `used` temporaries from `temporary` on. -/
structure Move.Accounts (moves scheduled : List Move) (temporary : Register) (used : Int64) :
    Prop where
  carried : ((carriers temporary scheduled).map outline).Perm (moves.dedup.map outline)
  /-- A copy reads an original source, all of it and nothing else. -/
  copied : ∀ copy ∈ copies temporary scheduled, ∃ source, copy.source = .register source ∧
    ∃ move ∈ moves, move.source = .register source ∧ copy.slotsRead = move.slotsRead
  once : ((copies temporary scheduled).map (·.source)).Nodup
  /-- The copies write one temporary after the other. -/
  filled : ((copies temporary scheduled).flatMap written).map Int64.toInt =
    (List.range used.toInt.toNat).map fun k : Nat => temporary.toInt + k
  widths : ((copies temporary scheduled).map (·.type.width.toInt)).sum = used.toInt
  written : ∀ slot, IsTemporarySlot temporary used slot → IsWrittenOnce scheduled slot
  reads : ∀ move ∈ scheduled, ∀ slot ∈ move.slotsRead,
    0 ≤ slot ∧ slot.toInt < temporary.toInt + used.toInt

namespace Scheduler

/-- The ledger starts empty. -/
theorem ledger_start (scheduler : Scheduler) : scheduler.start.Ledger scheduler.moves := by
  refine ⟨?_, rfl, ?_, ?_, ?_, ?_, ?_⟩ <;>
    simp [Scheduling.carriers, Scheduling.copies, Move.carriers, Move.copies,
      Scheduling.relocated, start, Scheduling.left]

/-- Of equal moves one is kept. -/
theorem moves_perm_dedup {temporary : Register} {moves : List Move} {scheduler : Scheduler}
    (h : addAll { temporary } moves = .ok scheduler) : scheduler.moves.Perm moves.dedup := by
  obtain ⟨haccepted, -, hmem⟩ := addAll_spec h (accepted_empty temporary)
  refine (List.perm_ext_iff_of_nodup haccepted.nodup moves.nodup_dedup).mpr fun move => ?_
  simp [hmem]

/-- **Nothing is lost, duplicated or reused in a schedule.** Moves that have been accepted can be
scheduled, and the schedule has one move for each of them, with its target, type and constant. All
other moves copy a source to temporaries: no source twice, and the temporaries one after another.
Each temporary is written once and not read before, and nothing is read behind them. -/
theorem schedule_accounts {temporary : Register} (htemporary : 0 ≤ temporary) {moves : List Move}
    {scheduler : Scheduler} (hadd : addAll { temporary } moves = .ok scheduler)
    (hregs : ∀ move ∈ moves, move.InRegisters)
    (hwrap : temporary.toInt + scheduler.schedule.1.used.toInt ≤ 2 ^ 63) :
    ∃ scheduled, scheduler.schedule.2 = .ok scheduled ∧
      Move.Accounts moves scheduled temporary scheduler.schedule.1.used := by
  obtain ⟨rfl, hmem, hmoves⟩ := schedulable_of_addAll hadd hregs
  obtain ⟨last, hschedule, hsane, htemp, hleft, hkept⟩ := schedule_eq hmoves htemporary
  have hledger := hkept _ (Scheduling.kept_ledger _) scheduler.ledger_start
  have hcarriers : Move.carriers scheduler.temporary last.emitted.reverse =
      last.carriers.reverse := by
    rw [Scheduling.carriers, htemp, Move.carriers, Move.carriers, List.filter_reverse]
  have hcopies : Move.copies scheduler.temporary last.emitted.reverse = last.copies.reverse := by
    rw [Scheduling.copies, htemp, Move.copies, Move.copies, List.filter_reverse]
  rw [hschedule] at hwrap ⊢
  refine ⟨last.emitted.reverse, rfl, ?_⟩
  dsimp only at hwrap ⊢
  constructor
  · rw [hcarriers, List.map_reverse]
    have hperm := hledger.carried
    rw [hleft, List.append_nil] at hperm
    exact (List.reverse_perm _).trans (hperm.trans ((moves_perm_dedup hadd).map _))
  · rw [hcopies]
    intro copy hcopy
    obtain ⟨source, -, hsource, move, hmove, hrest⟩ :=
      hledger.copied copy (List.mem_reverse.mp hcopy)
    exact ⟨source, hsource, move, (hmem move).mp hmove, hrest⟩
  · rw [hcopies, List.map_reverse, List.nodup_reverse]
    exact hledger.once
  · rw [hcopies, hledger.filled, htemp, toInt_temporarySlots htemporary hwrap]
  · rw [hcopies, List.map_reverse, List.sum_reverse]
    exact hledger.sum_widths hsane
  · intro slot hslot
    refine hledger.isWrittenOnce hsane (htemp ▸ hmoves) ?_
    rwa [Scheduling.IsTemporary, htemp]
  · intro move hmove slot hr
    have hread := hsane.reads move (List.mem_reverse.mp hmove) slot hr
    rw [Scheduling.IsTemporary, htemp] at hread
    have hused := hsane.used_nonneg
    rw [Int64.le_iff_toInt_le, Int64.toInt_zero] at hused htemporary
    obtain ⟨h0, hlt⟩ | ⟨offset, h0, hlt, rfl⟩ := hread
    · rw [Int64.lt_iff_toInt_lt] at hlt
      exact ⟨h0, by omega⟩
    · rw [Int64.le_iff_toInt_le, Int64.toInt_zero] at h0
      rw [Int64.lt_iff_toInt_lt] at hlt
      rw [Int64.le_iff_toInt_le, Int64.toInt_zero, Int64.toInt_add,
        Int.bmod_eq_of_le (by omega) (by omega)]
      omega

theorem schedule_accounts_wideSwap :
    addAll { temporary := 8 } wideSwap = .ok { temporary := 8, moves := wideSwap } ∧
    (∀ move ∈ wideSwap, move.InRegisters) ∧
    (schedule { temporary := 8, moves := wideSwap }).1.used = 2 ∧
    ∃ scheduled, (schedule { temporary := 8, moves := wideSwap }).2 = .ok scheduled ∧
      Move.Accounts wideSwap scheduled 8 2 := by
  have hadd : addAll { temporary := 8 } wideSwap = .ok { temporary := 8, moves := wideSwap } := by
    decide +kernel
  have hused : (schedule { temporary := 8, moves := wideSwap }).1.used = 2 := by decide +kernel
  obtain ⟨scheduled, hscheduled, haccounts⟩ :=
    schedule_accounts (by decide) hadd (by decide) (by rw [hused]; decide)
  exact ⟨hadd, by decide, hused, scheduled, hscheduled, hused ▸ haccounts⟩

end Scheduler
end RegisterAllocation
