import RegisterAllocation.Proofs.Scan.Run

/-!
# The eviction loop

A value that finds no free register makes others give way, one after another, each time the one that
gives way first among those in allocatable registers, until there is room for it or the next one
ends no later than it does (`Scan.Settles`). Each round takes a piece out of the allocatable
registers for good, so there are no more rounds than there are such pieces.

No round fails if the spill area is large enough. A piece is in the way of three registers at most,
so that three registers for each value are enough, however the pieces lie there
(`Scan.Roomy.placeEvicting`).
-/

namespace RegisterAllocation

/-- All slots of a piece are allocatable. -/
def Piece.Allocatable (u : CodeUnit) (config : Config) (piece : Piece) : Prop :=
  piece.register + u.pool.width piece.value ≤ config.registers

namespace Scan

variable {u : CodeUnit} {config : Config} {reserved : Reserved} {scan next : Scan} {now : Position}
  {done : List ValueId} {v : ValueId}

/-! ## Rounds -/

/-- An active piece in allocatable registers before which no other gives way. -/
structure IsVictim (u : CodeUnit) (config : Config) (scan : Scan) (victim : Piece) : Prop where
  active : victim ∈ scan.active
  allocatable : victim.Allocatable u config
  first : ∀ other ∈ scan.active, other.Allocatable u config →
    yieldsBefore u.pool other victim = false

/-- The value `v` is placed after a number of evictions. -/
inductive Settles (u : CodeUnit) (config : Config) (reserved : Reserved) (v : ValueId) :
    Scan → Nat → Scan → Prop
  /-- A register is free. -/
  | free {scan next : Scan} (hfree : scan.placeFree? u config reserved v = some next) :
    Settles u config reserved v scan 0 next
  /-- No piece would give way, and the value goes to the spill area itself. -/
  | spill {scan next : Scan} (hfull : scan.placeFree? u config reserved v = none)
    (hlast : ∀ victim, IsVictim u config scan victim → victim.stop ≤ (u.value v).stop)
    (hspill : scan.spill u config reserved v = .ok next) :
    Settles u config reserved v scan 0 next
  /-- A piece gives way, and the loop goes on. -/
  | evict {scan evicted next : Scan} {victim : Piece} {rounds : Nat}
    (hfull : scan.placeFree? u config reserved v = none) (hvictim : IsVictim u config scan victim)
    (hlater : (u.value v).stop < victim.stop)
    (hevict : scan.evict u config reserved victim (u.value v).start = .ok evicted)
    (hrest : Settles u config reserved v evicted rounds next) :
    Settles u config reserved v scan (rounds + 1) next

/-- The values of a list are placed one after another. For none of them the loop has more rounds
than there are active pieces. -/
inductive Scans (u : CodeUnit) (config : Config) (reserved : Reserved) :
    Scan → List ValueId → Scan → Prop
  | nil (scan : Scan) : Scans u config reserved scan [] scan
  | cons {scan placed next : Scan} {v : ValueId} {vs : List ValueId} {rounds : Nat}
    (hsettles : Settles u config reserved v (scan.expire (u.value v).start) rounds placed)
    (hrounds : rounds ≤ (scan.expire (u.value v).start).active.length)
    (hrest : Scans u config reserved placed vs next) :
    Scans u config reserved scan (v :: vs) next

/-- Sorting agrees with the order in which candidates give way. -/
theorem yieldsBefore_agrees (pool : Pool) :
    Sorting.Agrees (yieldsBefore pool) fun piece other =>
      yieldsBefore pool other piece = false := by
  refine ⟨fun x y z hxy hyz => ?_, fun x y h => ?_, fun x y h => h⟩
  · simp only [yieldsBefore] at hxy hyz ⊢
    grind
  · simp only [yieldsBefore] at h ⊢
    grind

/-- A candidate that does not give way first does not stop later. -/
theorem stop_le_of_yieldsBefore_eq_false {pool : Pool} {piece other : Piece}
    (h : yieldsBefore pool piece other = false) : piece.stop ≤ other.stop := by
  simp only [yieldsBefore] at h
  grind

/-- The candidates are the active pieces in allocatable registers, in the order of giving way. -/
theorem candidates_spec (u : CodeUnit) (config : Config) (scan : Scan) :
    ((scan.candidates u config).Pairwise fun piece other =>
      yieldsBefore u.pool other piece = false) ∧
    ∀ piece, piece ∈ scan.candidates u config ↔
      piece ∈ scan.active ∧ piece.Allocatable u config := by
  refine ⟨Sorting.sort_ordered (yieldsBefore_agrees u.pool) _, fun piece => ?_⟩
  rw [mem_candidates, Int64.not_lt, Piece.Allocatable]

/-! ## Room in the spill area -/

/-- The spill area has three registers for each piece in the way and for one more. -/
def HasRoom (config : Config) (reserved : Reserved) (scan : Scan) : Prop :=
  config.registers.toInt + 3 * (reserved.pieces.length + scan.active.length + 1) ≤
    config.maxRegisters.toInt

/-- What holds at `now`, when the values `done` have been placed: nothing is beyond the spill area,
and values have moved from allocatable registers only. -/
structure Roomy (u : CodeUnit) (config : Config) (reserved : Reserved) (done : List ValueId)
    (now : Position) (scan : Scan) : Prop where
  placed : scan.Placed u reserved now
  recorded : scan.Recorded u config done
  below : ∀ piece ∈ scan.ended ++ scan.active,
    piece.register + u.pool.width piece.value ≤ config.maxRegisters
  moved : ∀ piece ∈ scan.ended ++ scan.active, piece.stop ≠ (u.value piece.value).stop →
    piece.Allocatable u config

theorem roomy_empty (u : CodeUnit) (config : Config) (reserved : Reserved) (now : Position) :
    Roomy u config reserved [] now {} :=
  ⟨placed_empty u reserved now, recorded_empty u config, by simp, by simp⟩

/-- There is as much room later. -/
theorem Roomy.expire (h : scan.Roomy u config reserved done now) {position : Position}
    (hle : now ≤ position) : (scan.expire position).Roomy u config reserved done position :=
  ⟨h.placed.expire hle, h.recorded.expire position,
    fun piece hpiece => h.below piece (mem_of_mem_expire hpiece),
    fun piece hpiece => h.moved piece (mem_of_mem_expire hpiece)⟩

section Room

variable (hreserved : reserved.Sound u) (hregisters : 0 ≤ config.registers)
include hreserved hregisters

/-- A search of the spill area succeeds: three times as many registers are passed over at most as
pieces are in the way. -/
theorem exists_spillRegister (hroom : HasRoom config reserved scan) (w : ValueId)
    (start stop : Position) :
    ∃ register, scan.spillRegister u config reserved w start stop = .ok register ∧
      config.registers ≤ register ∧ (u.value w).type.Fits register ∧
      register + (u.value w).type.width ≤ config.maxRegisters ∧
      ∀ slot ∈ (u.value w).type.span register,
        scan.slotFree u reserved (.single start stop) slot = true := by
  have hlast := Int64.toInt_lt config.maxRegisters
  rw [HasRoom] at hroom
  rw [spillRegister]
  cases hfound : scan.findFree? u reserved config.registers config.maxRegisters (u.value w).type
      start stop with
  | some register =>
    obtain ⟨hle, hfree, -⟩ := findFree?_eq_some hfound
    exact ⟨register, rfl, hle, fits_of_few hreserved hregisters (by omega) hfound,
      end_le_of_findFree? hfound, hfree⟩
  | none =>
    -- every register that was passed over has a piece near it, and there are not that many pieces
    exfalso
    obtain ⟨register, hle, hend, hpassed⟩ := findFree?_eq_none hregisters hfound
    have hnear := Reserved.sub_le_of_near fun register hlow hhigh =>
      exists_near_of_not_free hreserved (hpassed register hlow hhigh)
    rw [List.length_append] at hnear
    push_cast at hnear
    obtain hout | hlast := hend
    · have hwidth := (u.value w).type.toInt_width
      rw [Int64.lt_iff_toInt_lt,
        (u.value w).type.toInt_add_width (Int64.le_trans hregisters hle) (by omega)] at hout
      omega
    · exact absurd (Register.lt_add_one (by omega)) (Int64.not_lt.mpr hlast)

omit hregisters in
/-- A value that starts now is put in slots that are free. -/
theorem Roomy.activate (h : scan.Roomy u config reserved done now) (hnew : v ∉ done)
    (hstart : (u.value v).start = now) (hstop : (u.value v).start < (u.value v).stop)
    {register : Register} (hnonneg : 0 ≤ register) (hfits : (u.value v).type.Fits register)
    (hbelow : register + (u.value v).type.width ≤ config.maxRegisters)
    (hfree : ∀ slot ∈ (u.value v).type.span register,
      scan.slotFree u reserved (.single (u.value v).start (u.value v).stop) slot = true) :
    (scan.activate u v register).Roomy u config reserved (v :: done) now := by
  refine ⟨h.placed.activate hreserved hstart hstop hnonneg hfits hfree,
    h.recorded.activate hnew register, fun piece hpiece => ?_, fun piece hpiece hmoved => ?_⟩
  · obtain hpiece | rfl := mem_activate hpiece
    · exact h.below piece hpiece
    · exact hbelow
  · obtain hpiece | rfl := mem_activate hpiece
    · exact h.moved piece hpiece hmoved
    · exact absurd rfl hmoved

omit hreserved hregisters in
/-- A victim that goes to the spill area is no longer in allocatable registers. All others stay. -/
theorem mem_allocatable_evicted {victim piece : Piece} {register : Register}
    (hspill : config.registers ≤ register) (hfits : (u.value victim.value).type.Fits register) :
    piece ∈ (scan.evicted u victim now register).active ∧ piece.Allocatable u config ↔
      (piece ∈ scan.active ∧ piece.Allocatable u config) ∧ piece.value ≠ victim.value := by
  rw [active_evicted, List.mem_append, List.mem_singleton]
  constructor
  · rintro ⟨hpiece | rfl, hlow⟩
    · obtain ⟨hactive, hne⟩ : piece ∈ scan.active ∧ piece.value ≠ victim.value := by
        simpa using hpiece
      exact ⟨⟨hactive, hlow⟩, hne⟩
    · have hlt : register < register + u.pool.width victim.value := hfits
      exact absurd (Int64.lt_of_le_of_lt hspill hlt) (Int64.not_lt.mpr hlow)
  · exact fun ⟨⟨hactive, hlow⟩, hne⟩ => ⟨.inl (by simp [hactive, hne]), hlow⟩

/-- A victim gives way: it leaves the allocatable registers and takes no more room than before. -/
theorem Roomy.evict (h : scan.Roomy u config reserved done now)
    (hroom : HasRoom config reserved scan) {victim : Piece} (hvictim : victim ∈ scan.active)
    (hlow : victim.Allocatable u config) :
    ∃ evicted, scan.evict u config reserved victim now = .ok evicted ∧
      evicted.Roomy u config reserved done now ∧ HasRoom config reserved evicted ∧
      ∀ piece, piece ∈ evicted.active ∧ piece.Allocatable u config ↔
        (piece ∈ scan.active ∧ piece.Allocatable u config) ∧ piece.value ≠ victim.value := by
  have hothers : (scan.active.filter (·.value ≠ victim.value)).length < scan.active.length :=
    List.length_filter_lt_length_iff_exists.mpr ⟨victim, hvictim, by simp⟩
  have hheld := h.placed.fits victim (List.mem_append_right _ hvictim)
  have hlow' := Int64.not_lt.mpr hlow
  obtain ⟨-, ⟨-, hwhole⟩, -⟩ := h.recorded.whole_of_candidate hvictim hheld hlow'
  rw [HasRoom] at hroom
  obtain ⟨register, hspill, hle, hfits, hbelow, hfree⟩ := @exists_spillRegister u config reserved
    { scan with active := scan.active.filter (·.value ≠ victim.value) } hreserved hregisters
    (by rw [HasRoom]; dsimp only; omega) victim.value now victim.stop
  refine ⟨scan.evicted u victim now register, by rw [evict_eq, hspill]; rfl, ⟨?_, ?_, ?_, ?_⟩,
    ?_, ?_⟩
  · exact h.placed.evicted hreserved hvictim (Int64.le_trans hregisters hle) hfits hfree
  · exact h.recorded.evicted hvictim hheld hlow' (h.placed.live victim hvictim) hle
  · intro piece hpiece
    obtain hended | rfl | hactive | rfl := mem_evicted hpiece
    · exact h.below piece (List.mem_append_left _ hended)
    · exact h.below victim (List.mem_append_right _ hvictim)
    · exact h.below piece (List.mem_append_right _ (List.mem_of_mem_filter hactive))
    · exact hbelow
  · intro piece hpiece hmoved
    obtain hended | rfl | hactive | rfl := mem_evicted hpiece
    · exact h.moved piece (List.mem_append_left _ hended) hmoved
    · exact hlow
    · exact h.moved piece (List.mem_append_right _ (List.mem_of_mem_filter hactive)) hmoved
    · exact absurd hwhole hmoved
  · rw [HasRoom, active_evicted, List.length_append, List.length_singleton]
    omega
  · exact fun piece => mem_allocatable_evicted hle hfits

/-! ## One value -/

section Place

variable (hnew : v ∉ done) (hstart : (u.value v).start = now)
  (hstop : (u.value v).start < (u.value v).stop)
include hnew hstart hstop

/-- A value that finds a free register keeps the room. -/
theorem Roomy.placeFree? (h : scan.Roomy u config reserved done now)
    (hroom : HasRoom config reserved scan)
    (hfree : scan.placeFree? u config reserved v = some next) :
    next.Roomy u config reserved (v :: done) now := by
  obtain ⟨register, hregister, rfl⟩ := Option.map_eq_some_iff.mp hfree
  obtain ⟨hnonneg, hslots, -⟩ := findFree?_eq_some hregister
  have hlast := Int64.toInt_lt config.maxRegisters
  rw [HasRoom] at hroom
  rw [Int64.le_iff_toInt_le, Int64.toInt_zero] at hregisters
  have hzero := Int64.toInt_zero
  have hfits := fits_of_few hreserved (Int64.le_refl 0) (by omega) hregister
  have hle : config.registers ≤ config.maxRegisters := by
    rw [Int64.le_iff_toInt_le]
    omega
  exact h.activate hreserved hnew hstart hstop hnonneg hfits
    (Int64.le_trans (end_le_of_findFree? hregister) hle) hslots

/-- A value that goes to the spill area finds a register there. -/
theorem Roomy.spill (h : scan.Roomy u config reserved done now)
    (hroom : HasRoom config reserved scan) :
    ∃ next, scan.spill u config reserved v = .ok next ∧
      next.Roomy u config reserved (v :: done) now := by
  obtain ⟨register, hspill, hle, hfits, hbelow, hfree⟩ :=
    exists_spillRegister hreserved hregisters hroom v (u.value v).start (u.value v).stop
  refine ⟨scan.activate u v register, by rw [Scan.spill, hspill]; rfl, ?_⟩
  exact h.activate hreserved hnew hstart hstop (Int64.le_trans hregisters hle) hfits hbelow hfree

/-- A value that starts now is placed after as many rounds as there are candidates, or fewer. The
induction is on the candidates: those that are left are the ones that still are allocatable. -/
theorem Roomy.placeEvicting (h : scan.Roomy u config reserved done now)
    (hroom : HasRoom config reserved scan) {candidates : List Piece}
    (hordered : candidates.Pairwise fun piece other => yieldsBefore u.pool other piece = false)
    (hnodup : (candidates.map (·.value)).Nodup)
    (hmem : ∀ piece, piece ∈ candidates ↔ piece ∈ scan.active ∧ piece.Allocatable u config) :
    ∃ rounds next, rounds ≤ candidates.length ∧
      placeEvicting u config reserved v scan candidates = .ok next ∧
      Settles u config reserved v scan rounds next ∧
      next.Roomy u config reserved (v :: done) now := by
  induction candidates generalizing scan with
  | nil =>
    cases hfound : scan.placeFree? u config reserved v with
    | some next =>
      exact ⟨0, next, Nat.le_refl 0, placeEvicting_of_placeFree? hfound, .free hfound,
        h.placeFree? hreserved hregisters hnew hstart hstop hroom hfound⟩
    | none =>
      obtain ⟨next, hspill, hnext⟩ := h.spill hreserved hregisters hnew hstart hstop hroom
      refine ⟨0, next, Nat.le_refl 0, ?_, .spill hfound (fun victim hvictim => ?_) hspill, hnext⟩
      · rw [Scan.placeEvicting, hfound]
        exact hspill
      · exact absurd ((hmem victim).mpr ⟨hvictim.active, hvictim.allocatable⟩) List.not_mem_nil
  | cons victim rest ih =>
    obtain ⟨hactive, hlow⟩ := (hmem victim).mp List.mem_cons_self
    obtain ⟨hfirst, hordered⟩ := List.pairwise_cons.mp hordered
    obtain ⟨hunique, hnodup⟩ := List.nodup_cons.mp hnodup
    have hvictim : IsVictim u config scan victim := by
      refine ⟨hactive, hlow, fun other hother hlow' => ?_⟩
      obtain rfl | hrest := List.mem_cons.mp ((hmem other).mpr ⟨hother, hlow'⟩)
      · simp [yieldsBefore, Int64.lt_irrefl]
      · exact hfirst other hrest
    cases hfound : scan.placeFree? u config reserved v with
    | some next =>
      exact ⟨0, next, Nat.zero_le _, placeEvicting_of_placeFree? hfound, .free hfound,
        h.placeFree? hreserved hregisters hnew hstart hstop hroom hfound⟩
    | none =>
      by_cases hlater : (u.value v).stop < victim.stop
      · obtain ⟨evicted, hevict, hevicted, hroom', hleft⟩ :=
          h.evict hreserved hregisters hroom hactive hlow
        have hmem' : ∀ piece, piece ∈ rest ↔
            piece ∈ evicted.active ∧ piece.Allocatable u config := by
          intro piece
          rw [hleft, ← hmem, List.mem_cons]
          constructor
          · exact fun hpiece =>
              ⟨.inr hpiece, fun heq => hunique (List.mem_map.mpr ⟨piece, hpiece, heq⟩)⟩
          · rintro ⟨hpiece, hne⟩
            exact hpiece.resolve_left fun heq => hne (heq ▸ rfl)
        obtain ⟨rounds, next, hrounds, hplace, hsettles, hnext⟩ :=
          ih hevicted hroom' hordered hnodup hmem'
        refine ⟨rounds + 1, next, Nat.succ_le_succ hrounds, ?_,
          .evict hfound hvictim hlater (hstart ▸ hevict) hsettles, hnext⟩
        rw [Scan.placeEvicting, hfound]
        dsimp only
        rw [if_pos hlater, hstart, hevict]
        exact hplace
      · obtain ⟨next, hspill, hnext⟩ := h.spill hreserved hregisters hnew hstart hstop hroom
        refine ⟨0, next, Nat.zero_le _, ?_, .spill hfound (fun other hother => ?_) hspill, hnext⟩
        · rw [Scan.placeEvicting, hfound]
          dsimp only
          rw [if_neg hlater]
          exact hspill
        · exact Int64.le_trans (stop_le_of_yieldsBefore_eq_false
            (hvictim.first other hother.active hother.allocatable)) (Int64.not_lt.mp hlater)

end Place

/-! ## All values -/

/-- The scan of the values ahead succeeds if there are three registers of the spill area for each of
them and for each piece and value before. -/
theorem Roomy.placeAll {vs : List ValueId} (h : scan.Roomy u config reserved done now)
    (hahead : Ahead u done now vs)
    (hroom : config.registers.toInt + 3 * (reserved.pieces.length + done.length + vs.length) ≤
      config.maxRegisters.toInt) :
    ∃ last next, placeAll u config reserved scan vs = .ok next ∧
      Scans u config reserved scan vs next ∧
      next.Roomy u config reserved (vs.reverse ++ done) last := by
  induction vs generalizing scan now done with
  | nil => exact ⟨now, scan, rfl, .nil scan, h⟩
  | cons v vs ih =>
    obtain ⟨hnew, hlater, hstop, hahead⟩ := hahead.step
    have hexpire := h.expire hlater
    have hactive := hexpire.recorded.length_active_le (List.Subset.refl done)
    rw [List.length_cons] at hroom
    push_cast at hroom
    obtain ⟨hordered, hmem⟩ := candidates_spec u config (scan.expire (u.value v).start)
    obtain ⟨rounds, placed, hrounds, hplace, hsettles, hplaced⟩ :=
      hexpire.placeEvicting hreserved hregisters hnew rfl hstop (by rw [HasRoom]; omega) hordered
        (nodup_candidates u config hexpire.recorded.nodup) hmem
    obtain ⟨last, next, hrest, hscans, hnext⟩ :=
      ih hplaced hahead (by rw [List.length_cons]; push_cast; omega)
    refine ⟨last, next, ?_, .cons hsettles (hrounds.trans ?_) hscans, ?_⟩
    · rw [Scan.placeAll, hplace]
      exact hrest
    · rw [candidates, (Sorting.sort_perm _ _).length_eq]
      exact List.length_filter_le _ _
    · rw [List.reverse_cons, List.append_assoc]
      exact hnext

end Room
end Scan
end RegisterAllocation
