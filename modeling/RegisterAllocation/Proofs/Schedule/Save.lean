import RegisterAllocation.Proofs.Schedule.Step

/-!
# Saving sources

When all moves left are blocked, the sources that one of them would overwrite are copied to fresh
temporaries. A source is saved at the greatest width at which a move left reads it, so that every
reader finds its contents there, and the temporaries it takes are paid for by the slots of that
reader, which is no longer exposed.
-/

namespace RegisterAllocation
namespace Scheduling

variable {α : Type} {load : Option Constant → Nat → α} {before : Contents α} {moves : List Move}

/-- A step that saves `source` at the width of `type` in the next temporaries. -/
structure Saves (source : Register) (type : MoveType) (s t : Scheduling) : Prop where
  left : t.left = s.left
  locations : t.locations = (source, s.temporary + s.used) :: s.locations
  temporary : t.temporary = s.temporary
  used : t.used = s.used + type.width
  emitted : t.emitted =
    ⟨s.temporary + s.used, .register (s.location source), type⟩ :: s.emitted
  /-- No move left reads more of the source than is saved. -/
  enough : ∀ move ∈ s.left, move.source = .register source → move.type = .wide → type = .wide
  /-- A move left reads as much of it as is saved, and could not do so without. -/
  reader : ∃ move ∈ s.left, move.source = .register source ∧ move.type.width = type.width ∧
    s.isExposed move = true

namespace Saves

variable {s t : Scheduling} {source : Register} {type : MoveType}

/-- Readers of the source read the temporary from now on. -/
theorem slotsNow_of_reader (h : Saves source type s t) {move : Move}
    (hmove : move.source = .register source) :
    t.slotsNow move = move.type.footprint (s.temporary + s.used) :=
  Scheduling.slotsNow_of_reader h.locations hmove

/-- All others read what they read. -/
theorem slotsNow_of_not_reader (h : Saves source type s t) {move : Move}
    (hmove : move.source ≠ .register source) : t.slotsNow move = s.slotsNow move :=
  Scheduling.slotsNow_of_not_reader h.locations hmove

/-- There is room for what is saved. -/
theorem used_toInt (h : Saves source type s t) (hsane : s.Sane moves) :
    t.used.toInt = s.used.toInt + type.width.toInt ∧ t.used ≤ s.temporary ∧ s.used < t.used := by
  obtain ⟨move, hmove, -, hwidth, hexposed⟩ := h.reader
  have hmem : s.exposedWidth move ∈ s.left.map s.exposedWidth := List.mem_map_of_mem hmove
  have hle : s.exposedWidth move ≤ (s.left.map s.exposedWidth).sum :=
    List.single_le_sum (fun width hw => by
      obtain ⟨other, -, rfl⟩ := List.mem_map.mp hw
      exact exposedWidth_nonneg s other) _ hmem
  have hcost : s.exposedWidth move = type.width.toInt := by
    simp only [exposedWidth, hexposed, if_true, hwidth]
  have hroom := hsane.room
  have hused := h.used
  have hnonneg := hsane.used_nonneg
  have hwidths := type.one_le_width
  have hlimit := Int64.toInt_le s.temporary
  simp only [Int64.le_iff_toInt_le, Int64.lt_iff_toInt_lt] at hwidths hnonneg ⊢
  simp only [Int64.toInt_maxValue] at hlimit
  have hsum : t.used.toInt = s.used.toInt + type.width.toInt := by
    rw [hused, Int64.toInt_add]
    apply Int.bmod_eq_of_le <;> simp at hwidths hnonneg ⊢ <;> omega
  simp at hwidths
  omega

/-- The temporaries in use are one more. -/
theorem isTemporary_iff (h : Saves source type s t) (hsane : s.Sane moves) {slot : Register} :
    t.IsTemporary slot ↔ s.IsTemporary slot ∨ slot ∈ type.footprint (s.temporary + s.used) := by
  obtain ⟨-, hle, hlt⟩ := h.used_toInt hsane
  have hused := h.used
  have hnonneg := hsane.used_nonneg
  simp only [IsTemporary, h.temporary, MoveType.mem_footprint]
  constructor
  · rintro ⟨offset, h0, hoffset, rfl⟩
    by_cases hold : offset < s.used
    · exact .inl ⟨offset, h0, hold, rfl⟩
    · right
      cases type <;> simp only [MoveType.width] at hused <;> grind
  · rintro (⟨offset, h0, hoffset, rfl⟩ | hnew | ⟨hwide, hnew⟩)
    · exact ⟨offset, h0, by grind, rfl⟩
    · exact ⟨s.used, hnonneg, hlt, hnew⟩
    · refine ⟨s.used + 1, ?_, ?_, by grind⟩
      · rw [hwide] at hused
        simp only [MoveType.width] at hused
        grind
      · rw [hwide] at hused
        simp only [MoveType.width] at hused
        grind

/-- The fresh temporaries are no registers. -/
theorem fresh_not_below (h : Saves source type s t) (hsane : s.Sane moves) {slot : Register}
    (hslot : slot ∈ type.footprint (s.temporary + s.used)) : ¬(0 ≤ slot ∧ slot < s.temporary) := by
  obtain ⟨offset, h0, hoffset, rfl⟩ := (h.isTemporary_iff hsane).mpr (.inr hslot)
  obtain ⟨-, hle, -⟩ := h.used_toInt hsane
  rw [h.temporary]
  grind

/-- The fresh temporaries were not in use. -/
theorem fresh_not_isTemporary (h : Saves source type s t) (hsane : s.Sane moves)
    {slot : Register} (hslot : slot ∈ type.footprint (s.temporary + s.used)) :
    ¬ s.IsTemporary slot := by
  rintro ⟨offset, h0, hoffset, rfl⟩
  obtain ⟨-, hle, hlt⟩ := h.used_toInt hsane
  have hused := h.used
  rcases MoveType.mem_footprint.mp hslot with heq | ⟨hwide, heq⟩
  · grind
  · rw [hwide] at hused
    simp only [MoveType.width] at hused
    grind

/-- The temporary is as wide as its widest reader. -/
theorem footprint_subset (h : Saves source type s t) {move : Move} (hmove : move ∈ s.left)
    (hsource : move.source = .register source) (register : Register) :
    move.type.footprint register ⊆ type.footprint register := by
  by_cases hwide : move.type = .wide
  · rw [h.enough move hmove hsource hwide, hwide]
    exact List.Subset.refl _
  · intro slot hslot
    rw [MoveType.mem_footprint] at hslot ⊢
    exact .inl (hslot.resolve_right fun hboth => hwide hboth.1)

/-- A source that has been saved is no longer exposed. -/
theorem not_isExposed (h : Saves source type s t) (hsane : s.Sane moves)
    (hmoves : Move.Schedulable s.temporary moves) {move : Move} (hmove : move ∈ s.left)
    (hsource : move.source = .register source) : t.isExposed move = false := by
  rw [Bool.eq_false_iff, Ne, isExposed_iff]
  rintro ⟨slot, hslot, other, hother, hwritten⟩
  rw [h.slotsNow_of_reader hsource] at hslot
  refine h.fresh_not_below hsane (h.footprint_subset hmove hsource _ hslot) ?_
  exact hmoves.written_below (hsane.subset (h.left ▸ hother)) hwritten

/-- What is saved is paid for by a reader that is no longer exposed. -/
theorem demand_le (h : Saves source type s t) (hsane : s.Sane moves)
    (hmoves : Move.Schedulable s.temporary moves) :
    type.width.toInt + (t.left.map t.exposedWidth).sum ≤ (s.left.map s.exposedWidth).sum := by
  obtain ⟨reader, hreader, hsource, hwidth, hexposed⟩ := h.reader
  have hpoint : ∀ move ∈ s.left, t.exposedWidth move ≤ s.exposedWidth move := by
    refine fun move hmove => exposedWidth_le fun hex => ?_
    by_cases hm : move.source = .register source
    · rw [h.not_isExposed hsane hmoves hmove hm] at hex
      contradiction
    · rw [isExposed_iff, h.slotsNow_of_not_reader hm, h.left] at hex
      exact isExposed_iff.mpr hex
  have hperm := List.perm_cons_erase hreader
  have hrest : ((s.left.erase reader).map t.exposedWidth).sum ≤
      ((s.left.erase reader).map s.exposedWidth).sum :=
    List.sum_le_sum fun move hmove => hpoint move (List.mem_of_mem_erase hmove)
  have hnone : t.exposedWidth reader = 0 := by
    simp [exposedWidth, h.not_isExposed hsane hmoves hreader hsource]
  have hsome : s.exposedWidth reader = type.width.toInt := by
    simp [exposedWidth, hexposed, hwidth]
  rw [h.left, (hperm.map t.exposedWidth).sum_eq, (hperm.map s.exposedWidth).sum_eq]
  simp only [List.map_cons, List.sum_cons, hnone, hsome]
  omega

/-- Saving a source keeps the state sane. -/
theorem sane (h : Saves source type s t) (hsane : s.Sane moves)
    (hmoves : Move.Schedulable s.temporary moves) : t.Sane moves := by
  obtain ⟨hused, -, hlt⟩ := h.used_toInt hsane
  constructor
  · exact h.left ▸ hsane.nodup
  · exact h.left ▸ hsane.subset
  · intro move hmove slot hslot
    rw [h.left] at hmove
    rw [h.isTemporary_iff hsane, h.temporary]
    by_cases hm : move.source = .register source
    · rw [h.slotsNow_of_reader hm] at hslot
      exact .inr (.inr (h.footprint_subset hmove hm _ hslot))
    · rw [h.slotsNow_of_not_reader hm] at hslot
      exact (hsane.inUse move hmove slot hslot).imp_right .inl
  · intro move hmove slot hslot
    rw [h.isTemporary_iff hsane, h.left]
    rw [h.emitted] at hmove
    rcases List.mem_cons.mp hmove with rfl | hold
    · exact .inr (.inr hslot)
    · exact (hsane.writes move hold slot hslot).imp_right .inl
  · intro move hmove slot hslot
    rw [h.isTemporary_iff hsane, h.temporary]
    rw [h.emitted] at hmove
    rcases List.mem_cons.mp hmove with rfl | hold
    · -- What is saved is read by a move that is left.
      obtain ⟨reader, hreader, hsource, hwidth, -⟩ := h.reader
      have hnow : slot ∈ s.slotsNow reader := by
        simp only [slotsNow, hsource]
        exact MoveType.footprint_congr hwidth _ ▸ hslot
      exact (hsane.inUse reader hreader slot hnow).imp_right .inl
    · exact (hsane.reads move hold slot hslot).imp_right .inl
  · intro move hmove
    rw [h.emitted] at hmove
    rcases List.mem_cons.mp hmove with rfl | hold
    · exact .inl ⟨_, rfl⟩
    · exact hsane.sources move hold
  · have := hsane.used_nonneg
    grind
  · have hdemand := h.demand_le hsane hmoves
    have hroom := hsane.room
    rw [h.temporary]
    omega

/-- Saving a source keeps the run faithful. -/
theorem faithful (h : Saves source type s t) (hsane : s.Sane moves)
    (hmoves : Move.Schedulable s.temporary moves) (hfaithful : s.Faithful load before moves) :
    t.Faithful load before moves := by
  have hcontents : t.contents load before = Contents.write load (s.contents load before)
      (s.contents load before)
      ⟨s.temporary + s.used, .register (s.location source), type⟩ := by
    simp only [contents, h.emitted, List.reverse_cons, Contents.run_concat]
  have hother : ∀ slot, slot ∉ type.footprint (s.temporary + s.used) →
      t.contents load before slot = s.contents load before slot := by
    intro slot hslot
    rw [hcontents]
    exact Contents.write_of_not_mem load _ _ hslot
  have hfresh : (type.footprint (s.temporary + s.used)).map (t.contents load before) =
      (type.footprint (s.location source)).map (s.contents load before) := by
    rw [hcontents]
    exact Contents.map_written_write load (s.contents load before) (s.contents load before)
      ⟨s.temporary + s.used, .register (s.location source), type⟩
  have hsaved : ∀ move ∈ s.left, move.source = .register source →
      (move.type.footprint (s.temporary + s.used)).map (t.contents load before) =
        move.slotsRead.map before := by
    intro move hmove hsource
    rw [← hfaithful.available move hmove]
    have henough := h.enough move hmove hsource
    simp only [slotsNow, hsource]
    -- The first slot is always saved, the second if a reader is wide.
    cases hm : move.type <;> cases ht : type <;> simp_all [MoveType.footprint]
  constructor
  · intro move hmove hleft
    rw [h.left] at hleft
    rw [← hfaithful.arrived move hmove hleft]
    refine List.map_congr_left fun slot hslot => hother slot fun hnew => ?_
    exact h.fresh_not_below hsane hnew (hmoves.written_below hmove hslot)
  · intro move hmove
    rw [h.left] at hmove
    by_cases hm : move.source = .register source
    · rw [h.slotsNow_of_reader hm, hsaved move hmove hm]
    · rw [h.slotsNow_of_not_reader hm, ← hfaithful.available move hmove]
      refine List.map_congr_left fun slot hslot => hother slot fun hnew => ?_
      rcases hsane.inUse move hmove slot hslot with hbelow | htemporary
      · exact h.fresh_not_below hsane hnew hbelow
      · exact h.fresh_not_isTemporary hsane hnew htemporary
  · intro slot hslot htemporary
    rw [h.isTemporary_iff hsane, not_or] at htemporary
    rw [hother slot htemporary.2]
    exact hfaithful.kept slot (h.left ▸ hslot) htemporary.1
  · intro slot htemporary
    rw [h.temporary]
    rcases (h.isTemporary_iff hsane).mp htemporary with hold | hnew
    · rw [hother slot fun hslot => h.fresh_not_isTemporary hsane hslot hold]
      exact hfaithful.saved slot hold
    · obtain ⟨reader, hreader, hsource, hwidth, -⟩ := h.reader
      have hmem : t.contents load before slot ∈ reader.slotsRead.map before := by
        rw [← hsaved reader hreader hsource, MoveType.footprint_congr hwidth]
        exact List.mem_map_of_mem hnew
      obtain ⟨origin, horigin, heq⟩ := List.mem_map.mp hmem
      have hbelow := hmoves.read_below (hsane.subset hreader) horigin
      exact ⟨origin, hbelow.1, hbelow.2, heq.symm⟩

end Saves

/-! ## What all steps keep -/

/-- A property that every step of scheduling `moves` keeps. -/
structure Kept (moves : List Move) (P : Scheduling → Prop) : Prop where
  rearranged : ∀ {s t : Scheduling}, Rearranged s t → P s → P t
  emits : ∀ {s t : Scheduling} {move : Move} {ready : List Move}, s.Sane moves →
    Move.Schedulable s.temporary moves → s.Queued → s.ready = move :: ready →
    ({ s with ready } : Scheduling).emit move = .ok t → Emits move { s with ready } t → P s → P t
  saves : ∀ {s t : Scheduling} {source : Register} {type : MoveType}, s.Sane moves →
    Move.Schedulable s.temporary moves → Saves source type s t → P s → P t

theorem kept_faithful (load : Option Constant → Nat → α) (before : Contents α)
    (moves : List Move) : Kept moves (·.Faithful load before moves) where
  rearranged := fun h hs => h.faithful hs
  emits := fun hsane hmoves hqueued hready _ h hs => h.faithful hready hsane hmoves hqueued hs
  saves := fun hsane hmoves h hs => h.faithful hsane hmoves hs

/-! ## Unblocking a move -/

/-- The type in which a source is saved is as wide as the widest reader. -/
theorem savedType_spec {s : Scheduling} {other : Move} {source : Register} (hother : other ∈ s.left)
    (hsource : other.source = .register source) :
    (∀ move ∈ s.left, move.source = .register source → move.type = .wide →
      s.savedType other source = .wide) ∧
    ∃ move ∈ s.left, move.source = .register source ∧
      move.type.width = (s.savedType other source).width ∧
      ∀ register, other.type.footprint register ⊆ move.type.footprint register := by
  have hreader : s.otherReader other source (·.type = .wide) = true ↔
      ∃ move ∈ s.left, move ≠ other ∧ move.source = .register source ∧ move.type = .wide := by
    rw [otherReader, show s.pending ++ s.ready = s.left from rfl]
    simp [and_assoc]
  unfold savedType
  constructor
  · intro move hmove hm hwide
    by_cases hsame : move = other
    · split
      · rfl
      · rw [← hsame, hwide]
    · rw [if_pos (hreader.mpr ⟨move, hmove, hsame, hm, hwide⟩)]
  · split
    · next hwide =>
      obtain ⟨move, hmove, -, hm, htype⟩ := hreader.mp hwide
      refine ⟨move, hmove, hm, by rw [htype], fun register => ?_⟩
      rw [htype]
      exact MoveType.footprint_subset_wide _ _
    · exact ⟨other, hother, hsource, rfl, fun register => List.Subset.refl _⟩

/-- The state after the source of `other` has been saved. -/
def saveSource (s : Scheduling) (other : Move) (source : Register) : Scheduling :=
  { s with
    emitted := Move.ofRegisters (s.temporary + s.used) (s.location source)
      (s.savedType other source) :: s.emitted
    locations := (source, s.temporary + s.used) :: s.locations
    used := s.used + (s.savedType other source).width }

/-- Saving the source of a move is one save. -/
theorem saves_saveSource {s : Scheduling} {move other : Move} {source : Register}
    (hsane : s.Sane moves) (hmove : move ∈ s.left) (hother : other ∈ s.left)
    (hsource : other.source = .register source)
    (hmeet : other.type.footprintsMeet (s.location source) move.type move.target = true) :
    Saves source (s.savedType other source) s (s.saveSource other source) := by
  obtain ⟨slot, hslot, hwritten⟩ := MoveType.footprintsMeet_iff.mp hmeet
  obtain ⟨henough, reader, hreader, hrsource, hwidth, hcover⟩ := savedType_spec hother hsource
  have hexposed : s.isExposed reader = true := by
    refine isExposed_iff.mpr ⟨slot, ?_, move, hmove, hwritten⟩
    simp only [slotsNow, hrsource]
    exact hcover _ hslot
  refine ⟨rfl, rfl, rfl, rfl, ?_, henough, reader, hreader, hrsource, hwidth, hexposed⟩
  simp [saveSource, Move.ofRegisters, hsane.location_ne hother hsource]

/-- Saving the sources of `others` keeps the invariants, and then `move` overwrites none of them.
The induction is on `others`; the pending moves that are not among them are already out of the
way. -/
theorem saveSources_spec {move : Move} {s : Scheduling} {others : List Move}
    (hsane : s.Sane moves) (hmoves : Move.Schedulable s.temporary moves) (hmove : move ∈ s.left)
    (hothers : others ⊆ s.pending)
    (hdone : ∀ other ∈ s.pending, other ∈ others ∨ ∀ slot ∈ s.slotsNow other, slot ∉ move.written) :
    (saveSources move s others).Sane moves ∧
    (saveSources move s others).temporary = s.temporary ∧
    (∀ other ∈ (saveSources move s others).pending,
      ∀ slot ∈ (saveSources move s others).slotsNow other, slot ∉ move.written) ∧
    ∀ P : Scheduling → Prop, Kept moves P → P s → P (saveSources move s others) := by
  induction others generalizing s with
  | nil =>
    refine ⟨hsane, rfl, fun other hother => (hdone other hother).resolve_left (by simp), ?_⟩
    exact fun P _ h => h
  | cons other rest ih =>
    have hmem : other ∈ s.left := List.mem_append_left _ (hothers (by simp))
    have hrest : rest ⊆ s.pending := fun m hm => hothers (List.mem_cons_of_mem _ hm)
    have hskip : (∀ slot ∈ s.slotsNow other, slot ∉ move.written) →
        ∀ m ∈ s.pending, m ∈ rest ∨ ∀ slot ∈ s.slotsNow m, slot ∉ move.written := by
      intro hfree m hm
      rcases hdone m hm with hin | hfree'
      · rcases List.mem_cons.mp hin with rfl | hin'
        · exact .inr hfree
        · exact .inl hin'
      · exact .inr hfree'
    unfold saveSources
    cases hsource : other.source with
    | constant constant =>
      exact ih hsane hmoves hmove hrest (hskip (by simp [slotsNow, hsource]))
    | missing =>
      exact ih hsane hmoves hmove hrest (hskip (by simp [slotsNow, hsource]))
    | register source =>
      dsimp only
      split
      · next hmeet =>
        have hsaves := saves_saveSource hsane hmove hmem hsource hmeet
        -- Readers of the saved source read temporaries, and the others what they read before.
        have hdone' : ∀ m ∈ s.pending, m ∈ rest ∨
            ∀ slot ∈ (s.saveSource other source).slotsNow m, slot ∉ move.written := by
          intro m hm
          by_cases hmsource : m.source = .register source
          · right
            intro slot hslot hwritten
            rw [hsaves.slotsNow_of_reader hmsource] at hslot
            have hmleft : m ∈ s.left := List.mem_append_left _ hm
            refine hsaves.fresh_not_below hsane (hsaves.footprint_subset hmleft hmsource _ hslot) ?_
            exact hmoves.written_below (hsane.subset hmove) hwritten
          · rw [hsaves.slotsNow_of_not_reader hmsource]
            rcases hdone m hm with hin | hfree
            · rcases List.mem_cons.mp hin with rfl | hin'
              · exact absurd hsource hmsource
              · exact .inl hin'
            · exact .inr hfree
        obtain ⟨htsane, htemporary, hfree, hkept⟩ :=
          ih (hsaves.sane hsane hmoves) hmoves hmove hrest hdone'
        refine ⟨htsane, htemporary, hfree, fun P hP h => hkept P hP ?_⟩
        exact hP.saves hsane hmoves hsaves h
      · next hapart =>
        refine ih hsane hmoves hmove hrest (hskip ?_)
        simp only [slotsNow, hsource]
        exact MoveType.footprintsMeet_eq_false_iff.mp (Bool.not_eq_true _ ▸ hapart)

/-- The state in which a pending move has been chosen to go ahead, before any source is saved. -/
theorem rearranged_choice {s : Scheduling} {index : Nat} {move : Move}
    (hmove : s.pending[index]? = some move) :
    Rearranged s { s with pending := s.pending.eraseIdx index, ready := s.ready ++ [move] } := by
  refine ⟨?_, rfl, rfl, rfl, rfl⟩
  obtain ⟨hlt, heq⟩ := List.getElem?_eq_some_iff.mp hmove
  have hperm : s.pending.Perm (move :: s.pending.eraseIdx index) :=
    heq ▸ (List.getElem_cons_eraseIdx_perm hlt).symm
  simp only [left]
  refine (List.Perm.append_left _ List.perm_append_comm).trans ?_
  exact List.perm_middle.trans (hperm.symm.append_right s.ready)

/-- Unblocking a move keeps the invariants. -/
theorem unblock_spec {s : Scheduling} (hsane : s.Sane moves)
    (hmoves : Move.Schedulable s.temporary moves) (hready : s.ready = [])
    (hpending : s.pending ≠ []) :
    s.unblock.Sane moves ∧ s.unblock.temporary = s.temporary ∧ s.unblock.Queued ∧
    ∀ P : Scheduling → Prop, Kept moves P → P s → P s.unblock := by
  have hlt := choice_lt hpending
  obtain ⟨move, hmove⟩ : ∃ move, s.pending[choice s.pending]? = some move :=
    ⟨_, List.getElem?_eq_getElem hlt⟩
  have hchosen := rearranged_choice hmove
  simp only [unblock, hmove]
  obtain ⟨htsane, htemporary, hfree, hkept⟩ :=
    saveSources_spec (hchosen.sane hsane) hmoves (by simp [left] : move ∈ _)
      (List.Subset.refl _) (fun other hother => .inl hother)
  have hlists : (saveSources move { s with
      pending := s.pending.eraseIdx (choice s.pending), ready := s.ready ++ [move] }
      (s.pending.eraseIdx (choice s.pending))).ready = [move] := by
    rw [(saveSources_lists _ _ _).2, hready]
    rfl
  refine ⟨htsane, htemporary, ⟨?_, ?_⟩, fun P hP h => hkept P hP (hP.rearranged hchosen h)⟩
  · intro first hfirst other hother
    rw [hlists, List.mem_singleton] at hfirst
    rw [hfirst]
    exact blocks_eq_false_iff.mpr (.inr (hfree other hother))
  · rw [hlists]
    exact List.pairwise_singleton _ _

end Scheduling
end RegisterAllocation
