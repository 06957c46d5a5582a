import RegisterAllocation.Proofs.Schedule.Invariant

/-!
# The steps of scheduling

One lemma on each invariant for each of the three steps: looking for moves that are no longer
blocked (`takeUnblocked`), emitting a move (`emit`), and saving sources so that a blocked move can
go ahead (`unblock`). Two facts carry the proofs. A step changes where a source is found only to a
place that no move left will write: the target of the emitted move, or a fresh temporary. And what a
step writes is no place in which a source is found.
-/

namespace RegisterAllocation
namespace Scheduling

variable {α : Type} {load : Option Constant → Nat → α} {before : Contents α} {moves : List Move}

/-! ## Rearranging the moves that are left -/

/-- The states differ at most in which of the moves left are ready, and in their order. -/
structure Rearranged (s t : Scheduling) : Prop where
  left : t.left.Perm s.left
  locations : t.locations = s.locations
  temporary : t.temporary = s.temporary
  used : t.used = s.used
  emitted : t.emitted = s.emitted

namespace Rearranged

variable {s t : Scheduling}

theorem slotsNow (h : Rearranged s t) : t.slotsNow = s.slotsNow := by
  funext move
  simp [Scheduling.slotsNow, location, h.locations]

theorem isTemporary_iff (h : Rearranged s t) {slot : Register} :
    t.IsTemporary slot ↔ s.IsTemporary slot := by
  simp [IsTemporary, h.used, h.temporary]

/-- A new arrangement keeps the state sane. -/
theorem sane (h : Rearranged s t) (hsane : s.Sane moves) : t.Sane moves := by
  have hmem := fun {m : Move} => h.left.mem_iff (a := m)
  have hexposed : t.exposedWidth = s.exposedWidth := by
    funext move
    have : t.isExposed move = s.isExposed move := by
      rw [Bool.eq_iff_iff, isExposed_iff, isExposed_iff, h.slotsNow]
      simp only [hmem]
    simp [exposedWidth, this]
  constructor
  · exact h.left.nodup_iff.mpr hsane.nodup
  · exact fun move hmove => hsane.subset (hmem.mp hmove)
  · intro move hmove slot hslot
    rw [h.isTemporary_iff, h.temporary]
    exact hsane.inUse move (hmem.mp hmove) slot (h.slotsNow ▸ hslot)
  · intro move hmove slot hslot
    rw [h.isTemporary_iff]
    rcases hsane.writes move (h.emitted ▸ hmove) slot hslot with ⟨other, hother, hleft, hw⟩ | htemp
    · exact .inl ⟨other, hother, fun hm => hleft (hmem.mp hm), hw⟩
    · exact .inr htemp
  · intro move hmove slot hslot
    rw [h.isTemporary_iff, h.temporary]
    exact hsane.reads move (h.emitted ▸ hmove) slot hslot
  · exact fun move hmove => hsane.sources move (h.emitted ▸ hmove)
  · exact h.used ▸ hsane.used_nonneg
  · rw [hexposed, (h.left.map _).sum_eq, h.used, h.temporary]
    exact hsane.room

/-- A new arrangement keeps the run faithful. -/
theorem faithful (h : Rearranged s t) (hfaithful : s.Faithful load before moves) :
    t.Faithful load before moves := by
  have hmem := fun {m : Move} => h.left.mem_iff (a := m)
  have hcontents : t.contents load before = s.contents load before := by
    simp only [contents, h.emitted]
  constructor
  · intro move hmove hleft
    rw [hcontents]
    exact hfaithful.arrived move hmove fun hm => hleft (hmem.mpr hm)
  · intro move hmove
    rw [hcontents, h.slotsNow]
    exact hfaithful.available move (hmem.mp hmove)
  · intro slot hslot htemporary
    rw [hcontents]
    refine hfaithful.kept slot (fun move hmove hleft => ?_)
      (fun htemp => htemporary (h.isTemporary_iff.mpr htemp))
    exact hslot move hmove fun hm => hleft (hmem.mp hm)
  · intro slot htemporary
    rw [hcontents, h.temporary]
    exact hfaithful.saved slot (h.isTemporary_iff.mp htemporary)

end Rearranged

/-! ## Looking for unblocked moves -/

/-- Splitting the pending moves loses none. -/
theorem unblocked_perm (s : Scheduling) (kept pending : List Move) :
    ((s.unblocked kept pending).1 ++ (s.unblocked kept pending).2).Perm
      (kept.reverse ++ pending) := by
  induction pending generalizing kept with
  | nil => simp [unblocked]
  | cons move rest ih =>
    simp only [unblocked]
    split
    · simpa using ih (move :: kept)
    · exact List.perm_middle.trans (((ih kept).cons move).trans List.perm_middle.symm)

/-- A move that becomes ready blocks none of the moves that stay behind or become ready later. -/
theorem unblocked_queued (s : Scheduling) (kept pending : List Move) :
    (∀ move ∈ (s.unblocked kept pending).2, ∀ other ∈ (s.unblocked kept pending).1,
      s.blocks move other = false) ∧
    (s.unblocked kept pending).2.Pairwise fun move other => s.blocks move other = false := by
  induction pending generalizing kept with
  | nil => simp [unblocked]
  | cons move rest ih =>
    simp only [unblocked]
    split
    · exact ih (move :: kept)
    · next hfree =>
      have hblocks := isBlocked_eq_false_iff.mp (Bool.not_eq_true _ ▸ hfree)
      have hall : ∀ other ∈ (s.unblocked kept rest).1 ++ (s.unblocked kept rest).2,
          s.blocks move other = false := by
        intro other hother
        have hmem := (s.unblocked_perm kept rest).mem_iff.mp hother
        refine hblocks other ?_
        simp only [List.mem_append, List.mem_cons] at hmem ⊢
        tauto
      obtain ⟨hpending, hready⟩ := ih kept
      constructor
      · intro first hfirst other hother
        rcases List.mem_cons.mp hfirst with rfl | hlater
        · exact hall other (by simp [hother])
        · exact hpending first hlater other hother
      · exact List.pairwise_cons.mpr ⟨fun other hother => hall other (by simp [hother]), hready⟩

/-- Taking up what is not blocked is a new arrangement. -/
theorem rearranged_takeUnblocked (s : Scheduling) : Rearranged s s.takeUnblocked := by
  refine ⟨?_, rfl, rfl, rfl, rfl⟩
  have h := s.unblocked_perm [] s.pending
  simp only [List.reverse_nil, List.nil_append] at h
  simp only [left, takeUnblocked]
  refine (List.Perm.append_left _ List.perm_append_comm).trans ?_
  rw [← List.append_assoc]
  exact h.append_right _

/-- What is taken up overwrites nothing that is still to be read. -/
theorem Queued.takeUnblocked {s : Scheduling} (h : s.Queued) : s.takeUnblocked.Queued := by
  obtain ⟨hpending, hready⟩ := s.unblocked_queued [] s.pending
  have hsub : ∀ other ∈ (s.unblocked [] s.pending).1 ++ (s.unblocked [] s.pending).2,
      other ∈ s.pending := fun other hother => by
    simpa using (s.unblocked_perm [] s.pending).mem_iff.mp hother
  constructor
  · intro move hmove other hother
    rcases List.mem_append.mp hmove with hold | hnew
    · exact h.pending move hold other (hsub other (List.mem_append_left _ hother))
    · exact hpending move hnew other hother
  · refine List.pairwise_append.mpr ⟨h.ready, hready, fun move hmove other hother => ?_⟩
    exact h.pending move hmove other (hsub other (List.mem_append_right _ hother))

/-! ## Where sources are found -/

/-- A register whose contents have been put elsewhere is read there. -/
theorem slotsNow_of_reader {s t : Scheduling} {source place : Register} {other : Move}
    (h : t.locations = (source, place) :: s.locations) (hother : other.source = .register source) :
    t.slotsNow other = other.type.footprint place := by
  simp [slotsNow, hother, location, h]

/-- All other registers are read where they were. -/
theorem slotsNow_of_not_reader {s t : Scheduling} {source place : Register} {other : Move}
    (h : t.locations = (source, place) :: s.locations) (hother : other.source ≠ .register source) :
    t.slotsNow other = s.slotsNow other := by
  cases hs : other.source with
  | register register =>
    have hne : (register == source) = false := by
      simp only [beq_eq_false_iff_ne]
      exact fun heq => hother (by rw [hs, heq])
    simp [slotsNow, hs, location, h, List.lookup_cons, hne]
  | constant constant => simp [slotsNow, hs]
  | missing => simp [slotsNow, hs]

/-! ## Emitting a move -/

/-- What a step that emits `move` does. It emits a copy that reads the slots in which the source of
`move` is now. The other moves read what they read before or, if they have the same source at the
same width, the target of `move`. -/
structure Emits (move : Move) (s t : Scheduling) : Prop where
  left : t.left = s.left
  lists : t.pending = s.pending ∧ t.ready = s.ready
  temporary : t.temporary = s.temporary
  used : t.used = s.used
  emitted : ∃ copy, t.emitted = copy :: s.emitted ∧ copy.written = move.written ∧
    copy.slotsRead = s.slotsNow move ∧
    ∀ {α : Type} (load : Option Constant → Nat → α) (before contents : Contents α),
      (s.slotsNow move).map contents = move.slotsRead.map before →
      Contents.read load contents copy = Contents.read load before move
  sources : ∀ other ∈ t.emitted, other ∈ s.emitted ∨ other.source = move.source ∨
    ∃ register, other.source = .register register
  slots : ∀ other ∈ s.left, t.slotsNow other = s.slotsNow other ∨
    t.slotsNow other = move.written ∧ ∃ source, move.source = .register source ∧
      other.slotsRead = move.slotsRead

/-- A move with a known source can be emitted. -/
theorem emit_spec {s : Scheduling} {move : Move} (hknown : move.source ≠ .missing)
    (hlocation : ∀ source, move.source = .register source → s.location source ≠ noRegister) :
    ∃ t, s.emit move = .ok t ∧ Emits move s t := by
  unfold emit
  cases hs : move.source with
  | missing => exact absurd hs hknown
  | constant constant =>
    refine ⟨_, rfl, rfl, ⟨rfl, rfl⟩, rfl, rfl, ⟨move, rfl, rfl, ?_, ?_⟩, ?_, fun _ _ => .inl rfl⟩
    · simp [Move.slotsRead, slotsNow, hs]
    · intro α load before contents _
      simp [Contents.read, hs]
    · rintro other (_ | ⟨_, hold⟩)
      · exact .inr (.inl rfl)
      · exact .inl hold
  | register source =>
    refine ⟨_, rfl, rfl, ⟨rfl, rfl⟩, rfl, rfl, ⟨_, rfl, rfl, ?_, ?_⟩, ?_, fun other hother => ?_⟩
    · simp only [Move.ofRegisters, if_neg (hlocation source hs), Move.slotsRead, slotsNow, hs]
    · intro α load before contents hslots
      simp only [Move.ofRegisters, if_neg (hlocation source hs)]
      simpa [Contents.read, slotsNow, Move.slotsRead, hs] using hslots
    · rintro other (_ | ⟨_, hold⟩)
      · exact .inr (.inr ⟨_, if_neg (hlocation source hs)⟩)
      · exact .inl hold
    · split
      · exact .inl rfl
      · next hwidths =>
        by_cases hreader : other.source = .register source
        · have hwidth : other.type.width = move.type.width := by
            by_contra hne
            have hdiffers : other ≠ move := fun heq => hne (by rw [heq])
            refine hwidths (List.any_eq_true.mpr ⟨other, hother, ?_⟩)
            simp [hdiffers, hreader, hne]
          refine .inr ⟨?_, source, hs, ?_⟩
          · rw [slotsNow_of_reader rfl hreader, Move.written, MoveType.footprint_congr hwidth]
          · simp [Move.slotsRead, hreader, hs, MoveType.footprint_congr hwidth]
        · exact .inl (slotsNow_of_not_reader rfl hreader)

namespace Emits

variable {s t : Scheduling} {move : Move} {ready : List Move}

theorem isTemporary_iff (h : Emits move { s with ready } t) {slot : Register} :
    t.IsTemporary slot ↔ s.IsTemporary slot := by
  simp [IsTemporary, h.used, h.temporary]

/-- A move that is emitted leaves the others. -/
theorem left_perm (h : Emits move { s with ready } t) (hready : s.ready = move :: ready) :
    s.left.Perm (move :: t.left) := by
  rw [h.left]
  simp only [Scheduling.left, hready]
  exact List.perm_middle

theorem mem_left_iff (h : Emits move { s with ready } t) (hready : s.ready = move :: ready)
    {other : Move} : other ∈ s.left ↔ other = move ∨ other ∈ t.left := by
  rw [(h.left_perm hready).mem_iff, List.mem_cons]

/-- A move is emitted once. -/
theorem not_mem_left (h : Emits move { s with ready } t) (hready : s.ready = move :: ready)
    (hsane : s.Sane moves) : move ∉ t.left :=
  (List.nodup_cons.mp ((h.left_perm hready).nodup_iff.mp hsane.nodup)).1

/-- The others read where they did, or from the copy that was just made. -/
theorem slots_left (h : Emits move { s with ready } t) {other : Move} (hother : other ∈ t.left) :
    t.slotsNow other = s.slotsNow other ∨
      t.slotsNow other = move.written ∧ ∃ source, move.source = .register source ∧
        other.slotsRead = move.slotsRead :=
  h.slots other (h.left ▸ hother)

/-- No move that is left comes to overwrite what another has to read. -/
theorem not_written (h : Emits move { s with ready } t) (hready : s.ready = move :: ready)
    (hsane : s.Sane moves) (hmoves : Move.Schedulable s.temporary moves) {other reader : Move}
    (hother : other ∈ t.left) (hreader : reader ∈ t.left)
    (hfree : ∀ slot ∈ s.slotsNow reader, slot ∉ other.written) :
    ∀ slot ∈ t.slotsNow reader, slot ∉ other.written := by
  have hmem : ∀ {m : Move}, m = move ∨ m ∈ t.left → m ∈ s.left := (h.mem_left_iff hready).mpr
  rcases h.slots_left hreader with heq | ⟨heq, -⟩
  · rw [heq]
    exact hfree
  · rw [heq]
    refine hmoves.compatible move (hsane.subset (hmem (.inl rfl))) other
      (hsane.subset (hmem (.inr hother))) ?_
    exact fun hsame => h.not_mem_left hready hsane (hsame ▸ hother)

/-- Emitting a ready move keeps the state sane. -/
theorem sane (h : Emits move { s with ready } t) (hready : s.ready = move :: ready)
    (hsane : s.Sane moves) (hmoves : Move.Schedulable s.temporary moves) : t.Sane moves := by
  have hmem : ∀ {m : Move}, m = move ∨ m ∈ t.left → m ∈ s.left := (h.mem_left_iff hready).mpr
  have hmove : move ∈ moves := hsane.subset (hmem (.inl rfl))
  have hexposed : ∀ reader ∈ t.left, t.isExposed reader = true → s.isExposed reader = true := by
    intro reader hreader hex
    by_contra hnot
    obtain ⟨slot, hslot, other, hother, hwrites⟩ := isExposed_iff.mp hex
    refine h.not_written hready hsane hmoves hother hreader ?_ slot hslot hwrites
    exact fun slot' hslot' hwrites' =>
      hnot (isExposed_iff.mpr ⟨slot', hslot', other, hmem (.inr hother), hwrites'⟩)
  constructor
  · exact (List.nodup_cons.mp ((h.left_perm hready).nodup_iff.mp hsane.nodup)).2
  · exact fun other hother => hsane.subset (hmem (.inr hother))
  · intro other hother slot hslot
    rw [h.isTemporary_iff, h.temporary]
    rcases h.slots_left hother with heq | ⟨heq, -⟩
    · exact hsane.inUse other (hmem (.inr hother)) slot (heq ▸ hslot)
    · exact .inl (hmoves.written_below hmove (heq ▸ hslot))
  · obtain ⟨copy, hemitted, hwritten, -, -⟩ := h.emitted
    intro other hother slot hslot
    rw [h.isTemporary_iff]
    rw [hemitted] at hother
    rcases List.mem_cons.mp hother with rfl | hold
    · exact .inl ⟨move, hmove, h.not_mem_left hready hsane, hwritten ▸ hslot⟩
    · rcases hsane.writes other hold slot hslot with ⟨origin, horigin, hleft, hw⟩ | htemporary
      · exact .inl ⟨origin, horigin, fun hm => hleft (hmem (.inr hm)), hw⟩
      · exact .inr htemporary
  · obtain ⟨copy, hemitted, -, hreads, -⟩ := h.emitted
    intro other hother slot hslot
    rw [h.isTemporary_iff, h.temporary]
    rw [hemitted] at hother
    rcases List.mem_cons.mp hother with rfl | hold
    · exact hsane.inUse move (hmem (.inl rfl)) slot (hreads ▸ hslot)
    · exact hsane.reads other hold slot hslot
  · intro other hother
    rcases h.sources other hother with hold | hsource | hregister
    · exact hsane.sources other hold
    · exact .inr ⟨move, hmove, hsource.symm⟩
    · exact .inl hregister
  · rw [h.used]
    exact hsane.used_nonneg
  · have hle : (t.left.map t.exposedWidth).sum ≤ (t.left.map s.exposedWidth).sum :=
      List.sum_le_sum fun reader hreader => exposedWidth_le (hexposed reader hreader)
    have hroom := hsane.room
    rw [((h.left_perm hready).map s.exposedWidth).sum_eq, List.map_cons, List.sum_cons] at hroom
    have hnonneg := exposedWidth_nonneg s move
    rw [h.used, h.temporary]
    dsimp only
    omega

/-- Emitting a ready move keeps the queue in order. -/
theorem queued (h : Emits move { s with ready } t) (hready : s.ready = move :: ready)
    (hsane : s.Sane moves) (hmoves : Move.Schedulable s.temporary moves) (hqueued : s.Queued) :
    t.Queued := by
  obtain ⟨htp, htr⟩ : t.pending = s.pending ∧ t.ready = ready := h.lists
  have hkeep : ∀ first ∈ t.left, ∀ other ∈ t.left, s.blocks first other = false →
      t.blocks first other = false := by
    intro first hfirst other hother hblocks
    rcases blocks_eq_false_iff.mp hblocks with hsame | hfree
    · exact blocks_eq_false_iff.mpr (.inl hsame)
    · exact blocks_eq_false_iff.mpr
        (.inr (h.not_written hready hsane hmoves hfirst hother hfree))
  constructor
  · intro first hfirst other hother
    refine hkeep first (List.mem_append_right _ hfirst) other (List.mem_append_left _ hother) ?_
    refine hqueued.pending first ?_ other (htp ▸ hother)
    rw [hready]
    exact List.mem_cons_of_mem _ (htr ▸ hfirst)
  · have hold := hqueued.ready
    rw [hready] at hold
    have hpairs : t.ready.Pairwise fun first other => s.blocks first other = false := by
      rw [htr]
      exact (List.pairwise_cons.mp hold).2
    refine hpairs.imp_of_mem fun hfirst hother => ?_
    exact hkeep _ (List.mem_append_right _ hfirst) _ (List.mem_append_right _ hother)

/-- A move that is left reads no slot that the emitted move writes. -/
theorem not_overwritten (h : Emits move { s with ready } t) (hready : s.ready = move :: ready)
    (hsane : s.Sane moves) (hqueued : s.Queued) {other : Move} (hother : other ∈ t.left) :
    ∀ slot ∈ s.slotsNow other, slot ∉ move.written := by
  obtain ⟨htp, htr⟩ : t.pending = s.pending ∧ t.ready = ready := h.lists
  have hblocks : s.blocks move other = false := by
    rcases List.mem_append.mp hother with hpending | hlater
    · exact hqueued.pending move (by simp [hready]) other (htp ▸ hpending)
    · have hpairs := hqueued.ready
      rw [hready] at hpairs
      exact (List.pairwise_cons.mp hpairs).1 other (htr ▸ hlater)
  rcases blocks_eq_false_iff.mp hblocks with hsame | hfree
  · exact absurd (hsame ▸ hother) (h.not_mem_left hready hsane)
  · exact hfree

/-- Emitting a ready move keeps the run faithful. -/
theorem faithful (h : Emits move { s with ready } t) (hready : s.ready = move :: ready)
    (hsane : s.Sane moves) (hmoves : Move.Schedulable s.temporary moves) (hqueued : s.Queued)
    (hfaithful : s.Faithful load before moves) : t.Faithful load before moves := by
  have hmem : ∀ {m : Move}, m = move ∨ m ∈ t.left → m ∈ s.left := (h.mem_left_iff hready).mpr
  have hmove : move ∈ moves := hsane.subset (hmem (.inl rfl))
  obtain ⟨copy, hemitted, hwritten, -, hread⟩ := h.emitted
  have hcontents : t.contents load before =
      Contents.write load (s.contents load before) (s.contents load before) copy := by
    simp only [contents, hemitted, List.reverse_cons, Contents.run_concat]
  -- The two facts about what the step writes.
  have hother : ∀ slot, slot ∉ move.written →
      t.contents load before slot = s.contents load before slot := by
    intro slot hslot
    rw [hcontents]
    exact Contents.write_of_not_mem load _ _ (hwritten ▸ hslot)
  have hown : move.written.map (t.contents load before) = Contents.read load before move := by
    rw [hcontents, ← hwritten, Contents.map_written_write]
    exact hread load before _ (hfaithful.available move (hmem (.inl rfl)))
  constructor
  · intro other hotherMem hleft
    by_cases hsame : other = move
    · rw [hsame, hown]
    · rw [← hfaithful.arrived other hotherMem
        (fun hm => (h.mem_left_iff hready).mp hm |>.elim hsame hleft)]
      refine List.map_congr_left fun slot hslot => hother slot ?_
      exact hmoves.compatible other hotherMem move hmove hsame slot hslot
  · intro other hleft
    rcases h.slots_left hleft with heq | ⟨heq, source, hsource, hreads⟩
    · rw [heq, ← hfaithful.available other (hmem (.inr hleft))]
      refine List.map_congr_left fun slot hslot => hother slot ?_
      exact h.not_overwritten hready hsane hqueued hleft slot hslot
    · rw [heq, hown, hreads]
      simp [Contents.read, Move.slotsRead, hsource]
  · intro slot hslot htemporary
    rw [hother slot (hslot move hmove (h.not_mem_left hready hsane))]
    refine hfaithful.kept slot (fun other hotherMem hleft => ?_)
      (fun htemp => htemporary (h.isTemporary_iff.mpr htemp))
    exact hslot other hotherMem fun hm => hleft (hmem (.inr hm))
  · intro slot htemporary
    have hold := h.isTemporary_iff.mp htemporary
    rw [h.temporary, hother slot ?_]
    · exact hfaithful.saved slot hold
    · intro hslot
      have hbelow := hmoves.written_below hmove hslot
      exact hsane.not_isTemporary hbelow.1 hbelow.2 hold

end Emits

end Scheduling
end RegisterAllocation
