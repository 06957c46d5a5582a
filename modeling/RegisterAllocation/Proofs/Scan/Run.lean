import RegisterAllocation.Proofs.PriorityQueue
import RegisterAllocation.Proofs.Scan.Invariant

/-!
# A run of the scan

Each step of the scan keeps what `Scan.Sound` says. Registers are found by searching upwards, and
every register that is passed over has a piece near it. Where there are few pieces, or where the
registers end before register numbers do, the search ends in time, and nothing wraps around.
-/

namespace RegisterAllocation
namespace Scan

variable {u : CodeUnit} {config : Config} {reserved : Reserved} {scan next : Scan} {now : Position}
  {done : List ValueId}

/-! ## Searching -/

/-- A register that is not free has a piece near it. -/
theorem exists_near_of_not_free (hreserved : reserved.Sound u) {type : MoveType}
    {live : LiveRange} {register : Register}
    (h : (type.span register).all (scan.slotFree u reserved live) = false) :
    ∃ piece ∈ reserved.pieces ++ scan.active, ∃ k < 3,
      register = piece.register + 1 - Int64.ofNat k := by
  obtain ⟨slot, hslot, htaken⟩ := List.all_eq_false.mp h
  have huser : ∃ piece ∈ reserved.pieces ++ scan.active, piece.usesSlot u.pool slot = true := by
    by_cases hconflicts : (reserved.rangeAt slot).conflicts live = true
    · obtain ⟨piece, hpiece, huses⟩ := hreserved.exists_of_conflicts hconflicts
      exact ⟨piece, List.mem_append_left _ hpiece, huses⟩
    · have hany : scan.active.any (·.usesSlot u.pool slot) = true := by
        simpa [slotFree, hconflicts] using htaken
      obtain ⟨piece, hpiece, huses⟩ := List.any_eq_true.mp hany
      exact ⟨piece, List.mem_append_right _ hpiece, huses⟩
  obtain ⟨piece, hpiece, huses⟩ := huser
  obtain ⟨k, hk, heq⟩ := Reserved.exists_near_of_usesSlot hslot huses
  exact ⟨piece, hpiece, k, hk, heq⟩

/-- Register numbers do not run out: few pieces are in the way, or the registers end before. -/
def NeverWraps (config : Config) (reserved : Reserved) (scan : Scan) : Prop :=
  6 * (reserved.pieces.length + scan.active.length) + 4 < 2 ^ 63 ∨
    MoveType.wide.Fits config.registers ∧ config.maxRegisters < Int64.maxValue

/-- Searches stay in range as long as there are not more pieces. -/
theorem NeverWraps.of_length_le (h : NeverWraps config reserved scan)
    (hle : next.active.length ≤ scan.active.length) : NeverWraps config reserved next :=
  Or.imp_left (fun hfew => by omega) h

/-- The search for a free register is a search for the least one. -/
theorem leastFrom?_of_findFree? {low high register : Register} {type : MoveType}
    {start stop : Position}
    (h : scan.findFree? u reserved low high type start stop = some register) :
    Register.leastFrom? (fun register => decide (register + type.width ≤ high))
      (fun register =>
        (type.span register).all (scan.slotFree u reserved (.single start stop))) low =
      some register := by
  rw [findFree?] at h
  obtain ⟨found, hfound, hchoice⟩ := Option.bind_eq_some_iff.mp h
  obtain rfl : found = register := by
    rw [Register.choice?] at hchoice
    split at hchoice <;> simp_all
  exact hfound

/-- The register that is found is free, and none below it is. -/
theorem findFree?_eq_some {low high register : Register} {type : MoveType} {start stop : Position}
    (h : scan.findFree? u reserved low high type start stop = some register) :
    low ≤ register ∧
      (∀ slot ∈ type.span register, scan.slotFree u reserved (.single start stop) slot = true) ∧
      ∀ other, low ≤ other → other < register →
        (type.span other).all (scan.slotFree u reserved (.single start stop)) = false := by
  obtain ⟨hle, -, hfree, hpassed⟩ := Register.leastFrom?_eq_some (leastFrom?_of_findFree? h)
  exact ⟨hle, List.all_eq_true.mp hfree, hpassed⟩

theorem end_le_of_findFree? {low high register : Register} {type : MoveType} {start stop : Position}
    (h : scan.findFree? u reserved low high type start stop = some register) :
    register + type.width ≤ high :=
  of_decide_eq_true (Register.leastFrom?_eq_some (leastFrom?_of_findFree? h)).2.1

/-- A register that is found is not far above the lowest one. -/
theorem fits_of_few (hreserved : reserved.Sound u) {low high register : Register}
    {type : MoveType} {start stop : Position} (hlow : 0 ≤ low)
    (hfew : low.toInt + 3 * (reserved.pieces.length + scan.active.length) + 2 < 2 ^ 63)
    (h : scan.findFree? u reserved low high type start stop = some register) :
    type.Fits register := by
  obtain ⟨hle, -, hpassed⟩ := findFree?_eq_some h
  have hnear := Reserved.sub_le_of_near fun register hlow hhigh =>
    exists_near_of_not_free hreserved (hpassed register hlow hhigh)
  rw [List.length_append] at hnear
  exact type.fits_of_lt (Int64.le_trans hlow hle) (by push_cast at hnear; omega)

/-- A register that is found is not near the last one, if the search ends before. -/
theorem fits_of_limit {low high register : Register} {type : MoveType} {start stop : Position}
    (hlow : 0 ≤ low) (hfirst : low.toInt + 2 < 2 ^ 63) (hhigh : high < Int64.maxValue)
    (h : scan.findFree? u reserved low high type start stop = some register) :
    type.Fits register := by
  have hwidth := type.toInt_width
  have hle := (findFree?_eq_some h).1
  rw [Int64.le_iff_toInt_le, Int64.toInt_zero] at hlow
  rw [Int64.le_iff_toInt_le] at hle
  have hend := Register.toInt_add_lt_of_leastFrom? hlow (by omega) (by omega) hhigh
    (leastFrom?_of_findFree? h)
  rw [MoveType.Fits, Int64.lt_iff_toInt_lt, Register.toInt_add (by omega) (by omega) hend]
  omega

/-- A search that finds nothing has come to the end of the registers, or of register numbers. -/
theorem findFree?_eq_none {low high : Register} {type : MoveType} {start stop : Position}
    (hlow : 0 ≤ low) (h : scan.findFree? u reserved low high type start stop = none) :
    ∃ register, low ≤ register ∧
      (high < register + type.width ∨ register + 1 ≤ register) ∧
      ∀ other, low ≤ other → other < register →
        (type.span other).all (scan.slotFree u reserved (.single start stop)) = false := by
  rw [findFree?] at h
  have h := Option.bind_eq_none_iff.mp h
  cases hfound : Register.leastFrom? (fun register => decide (register + type.width ≤ high))
      (fun register =>
        (type.span register).all (scan.slotFree u reserved (.single start stop))) low with
  | some register =>
    have hle := (Register.leastFrom?_eq_some hfound).1
    have hnone := h register hfound
    rw [Register.choice?, ite_eq_left_iff] at hnone
    simp only [reduceCtorEq, imp_false, not_not] at hnone
    exact absurd hnone (Register.ne_noRegister (Int64.le_trans hlow hle))
  | none =>
    obtain ⟨register, hle, hend, hpassed⟩ := Register.leastFrom?_eq_none hfound
    refine ⟨register, hle, hend.imp (fun hout => ?_) fun hend => hend.2, hpassed⟩
    exact Int64.not_le.mp (of_decide_eq_false hout)

/-- Where the allocatable registers do not suffice, there are not many more of them than pieces. -/
theorem le_of_findFree?_eq_none (hreserved : reserved.Sound u)
    (hfew : 6 * (reserved.pieces.length + scan.active.length) + 4 < 2 ^ 63)
    {high : Register} {type : MoveType} {start stop : Position}
    (h : scan.findFree? u reserved 0 high type start stop = none) :
    high.toInt ≤ 3 * (reserved.pieces.length + scan.active.length) + 1 := by
  obtain ⟨register, hle, hend, hpassed⟩ := findFree?_eq_none (Int64.le_refl 0) h
  have hnear := Reserved.sub_le_of_near fun register hlow hhigh =>
    exists_near_of_not_free hreserved (hpassed register hlow hhigh)
  rw [List.length_append, Int64.toInt_zero] at hnear
  push_cast at hnear
  obtain hout | hlast := hend
  · have hwidth := type.toInt_width
    rw [Int64.lt_iff_toInt_lt, type.toInt_add_width hle (by omega)] at hout
    omega
  · exact absurd (Register.lt_add_one (by omega)) (Int64.not_lt.mpr hlast)

/-- A register that is found among the allocatable ones does not wrap around. -/
theorem NeverWraps.fits (h : NeverWraps config reserved scan) (hreserved : reserved.Sound u)
    (hregisters : 0 ≤ config.registers) {register : Register} {type : MoveType}
    {start stop : Position}
    (hfound : scan.findFree? u reserved 0 config.registers type start stop = some register) :
    type.Fits register := by
  obtain hfew | ⟨hwide, -⟩ := h
  · exact fits_of_few hreserved (Int64.le_refl 0) (by rw [Int64.toInt_zero]; omega) hfound
  · have hlimit := MoveType.lt_of_fits_wide hregisters hwide
    refine fits_of_limit (Int64.le_refl 0) (by simp) ?_ hfound
    rw [Int64.lt_iff_toInt_lt, Int64.toInt_maxValue]
    omega

/-- Register numbers do not run out in the spill area. -/
def SpillNeverWraps (config : Config) (reserved : Reserved) (scan : Scan) : Prop :=
  config.registers.toInt + 3 * (reserved.pieces.length + scan.active.length) + 2 < 2 ^ 63 ∨
    MoveType.wide.Fits config.registers ∧ config.maxRegisters < Int64.maxValue

/-- Searches of the spill area stay in range as long as there are not more pieces. -/
theorem SpillNeverWraps.of_length_le (h : SpillNeverWraps config reserved scan)
    (hle : next.active.length ≤ scan.active.length) : SpillNeverWraps config reserved next :=
  Or.imp_left (fun hfew => by omega) h

/-- Where the allocatable registers do not suffice, there are few of them, and room above them. -/
theorem NeverWraps.spill (h : NeverWraps config reserved scan) (hreserved : reserved.Sound u)
    {v : ValueId} (hnone : scan.placeFree? u config reserved v = none) :
    SpillNeverWraps config reserved scan := by
  refine h.imp_left fun hfew => ?_
  have hle := le_of_findFree?_eq_none hreserved hfew (Option.map_eq_none_iff.mp hnone)
  omega

/-! ## Steps -/

/-- What holds at `now`, when the values `done` have been dealt with. -/
structure Sound (u : CodeUnit) (config : Config) (reserved : Reserved) (done : List ValueId)
    (now : Position) (scan : Scan) : Prop where
  placed : scan.Placed u reserved now
  recorded : scan.Recorded u config done
  neverWraps : NeverWraps config reserved scan

theorem placed_empty (u : CodeUnit) (reserved : Reserved) (now : Position) :
    Placed u reserved now {} :=
  ⟨by simp, by simp, by simp, by simp, by simp, by simp⟩

theorem recorded_empty (u : CodeUnit) (config : Config) : Recorded u config [] {} :=
  ⟨⟨by simp, by simp⟩, by simp, .nil, by simp [MoveTable.movesAt, Piece.ofValue]⟩

/-- Pieces end as time goes on. -/
theorem Sound.expire (h : Sound u config reserved done now scan) {position : Position}
    (hle : now ≤ position) : Sound u config reserved done position (scan.expire position) :=
  ⟨h.placed.expire hle, h.recorded.expire position,
    h.neverWraps.of_length_le (List.length_filter_le _ _)⟩

/-- Searches stay in range for all values of a unit. -/
theorem Recorded.neverWraps (hrecorded : scan.Recorded u config done) (hwraps : u.NeverWraps config)
    (hreserved : reserved.pieces.length ≤ u.arguments.length + 2 * u.values.length)
    (hdone : ∀ v ∈ done, v ∈ u.values) : NeverWraps config reserved scan := by
  have hlength := hrecorded.length_active_le hdone
  refine hwraps.imp (fun hfew => ?_) fun hlimits => hlimits.2
  rw [CodeUnit.reach, CodeUnit.maxPieces] at hfew
  omega

/-- The scan after a victim has gone to another register at `position`. -/
def evicted (scan : Scan) (u : CodeUnit) (victim : Piece) (position : Position)
    (register : Register) : Scan :=
  let head : Piece := { victim with stop := position }
  let tail : Piece := { victim with start := position, register }
  let others := scan.active.filter (·.value ≠ victim.value)
  if victim.start = position then { scan with active := others ++ [tail] }
  else
    { active := others ++ [tail]
      ended := scan.ended ++ [head]
      moves := scan.moves.add position (relocation u head tail) }

@[simp] theorem active_evicted (scan : Scan) (u : CodeUnit) (victim : Piece) (position : Position)
    (register : Register) : (scan.evicted u victim position register).active =
      scan.active.filter (·.value ≠ victim.value) ++
        [{ victim with start := position, register }] := by
  rw [evicted]
  split <;> rfl

/-- The pieces after an eviction: those of others, and what comes of the victim. -/
theorem mem_evicted {victim piece : Piece} {position : Position} {register : Register}
    (h : piece ∈ (scan.evicted u victim position register).ended ++
      (scan.evicted u victim position register).active) :
    piece ∈ scan.ended ∨ piece = { victim with stop := position } ∨
      piece ∈ scan.active.filter (·.value ≠ victim.value) ∨
      piece = { victim with start := position, register } := by
  rw [List.mem_append, active_evicted, List.mem_append, List.mem_singleton] at h
  refine h.elim (fun hended => ?_) fun hactive => .inr (.inr hactive)
  rw [evicted] at hended
  split at hended
  · exact .inl hended
  · exact (List.mem_append.mp hended).imp_right fun hhead => .inl (List.mem_singleton.mp hhead)

/-- A victim goes to a register of the spill area that is free without it. -/
theorem evict_eq (scan : Scan) (u : CodeUnit) (config : Config) (reserved : Reserved)
    (victim : Piece) (position : Position) :
    scan.evict u config reserved victim position =
      (({ scan with active := scan.active.filter (·.value ≠ victim.value) } : Scan).spillRegister u
        config reserved victim.value position victim.stop).map
        (scan.evicted u victim position) := by
  rw [evict]
  cases ({ scan with active := scan.active.filter (·.value ≠ victim.value) } : Scan).spillRegister u
    config reserved victim.value position victim.stop with
  | error failure => rfl
  | ok register =>
    simp only [bind, Except.bind, Except.map, evicted]
    split <;> rfl

/-- A victim that has gone to free slots leaves the pieces apart. -/
theorem Placed.evicted (h : scan.Placed u reserved now) (hreserved : reserved.Sound u)
    {victim : Piece} (hvictim : victim ∈ scan.active) {register : Register}
    (hnonneg : 0 ≤ register) (hfits : (u.value victim.value).type.Fits register)
    (hfree : ∀ slot ∈ (u.value victim.value).type.span register,
      ({ scan with active := scan.active.filter (·.value ≠ victim.value) } : Scan).slotFree u
        reserved (.single now victim.stop) slot = true) :
    (scan.evicted u victim now register).Placed u reserved now := by
  obtain ⟨hstart, hstop⟩ := h.live victim hvictim
  have hslots : ∀ slot,
      ({ victim with start := now, register } : Piece).usesSlot u.pool slot = true →
      slot ∈ (u.value victim.value).type.span register := by
    intro slot hslot
    rwa [Piece.usesSlot_iff_mem_span] at hslot
  rw [Scan.evicted]
  split
  · exact (h.remove victim.value).add hreserved { victim with start := now, register }
      ⟨hnonneg, hfits⟩ rfl hstop (fun slot hslot => hfree slot (hslots slot hslot)) _
  · exact (h.cut hvictim).add hreserved { victim with start := now, register }
      ⟨hnonneg, hfits⟩ rfl hstop (fun slot hslot => hfree slot (hslots slot hslot)) _

/-- A victim that has gone to the spill area is in two pieces or in one. -/
theorem Recorded.evicted (h : scan.Recorded u config done) {victim : Piece}
    (hvictim : victim ∈ scan.active) (hfits : victim.Fits u.pool)
    (hlow : ¬ config.registers < victim.register + u.pool.width victim.value)
    (hlive : victim.start ≤ now ∧ now < victim.stop) {register : Register}
    (hspill : config.registers ≤ register) :
    (scan.evicted u victim now register).Recorded u config done := by
  obtain ⟨hended, hwhole, hbelow⟩ := h.whole_of_candidate hvictim hfits hlow
  rw [Scan.evicted]
  split
  · next hnow =>
    have htail : ({ victim with start := now, register } : Piece) = { victim with register } := by
      rw [← hnow]
    rw [htail]
    exact h.relocate hvictim hended hwhole register
  · next hnow => exact h.split hvictim hended hwhole hbelow hspill (by grind) hlive.2

section Steps

variable (hreserved : reserved.Sound u) (hregisters : 0 ≤ config.registers)
include hreserved

/-- A value in free slots leaves the pieces apart. -/
theorem Placed.activate (h : scan.Placed u reserved now) {v : ValueId}
    (hstart : (u.value v).start = now) (hstop : (u.value v).start < (u.value v).stop)
    {register : Register} (hnonneg : 0 ≤ register) (hfits : (u.value v).type.Fits register)
    (hfree : ∀ slot ∈ (u.value v).type.span register,
      scan.slotFree u reserved (.single (u.value v).start (u.value v).stop) slot = true) :
    (scan.activate u v register).Placed u reserved now := by
  refine h.add hreserved ⟨v, (u.value v).start, (u.value v).stop, register⟩ ⟨hnonneg, hfits⟩ hstart
    (hstart ▸ hstop) (fun slot hslot => ?_) _
  rw [Piece.usesSlot_iff_mem_span] at hslot
  exact hfree slot hslot

/-- A value that starts now is put in free slots. -/
theorem Sound.activate (h : Sound u config reserved done now scan) {v : ValueId} (hv : v ∉ done)
    (hstart : (u.value v).start = now) (hstop : (u.value v).start < (u.value v).stop)
    {register : Register} (hnonneg : 0 ≤ register) (hfits : (u.value v).type.Fits register)
    (hfree : ∀ slot ∈ (u.value v).type.span register,
      scan.slotFree u reserved (.single (u.value v).start (u.value v).stop) slot = true)
    (hwraps : NeverWraps config reserved (scan.activate u v register)) :
    Sound u config reserved (v :: done) now (scan.activate u v register) :=
  ⟨h.placed.activate hreserved hstart hstop hnonneg hfits hfree, h.recorded.activate hv register,
    hwraps⟩

include hregisters

/-- The search of the spill area finds free slots there. -/
theorem spillRegister_spec (hwraps : SpillNeverWraps config reserved scan) {v : ValueId}
    {start stop : Position} {register : Register}
    (h : scan.spillRegister u config reserved v start stop = .ok register) :
    config.registers ≤ register ∧ (u.value v).type.Fits register ∧
      ∀ slot ∈ (u.value v).type.span register,
        scan.slotFree u reserved (.single start stop) slot = true := by
  rw [spillRegister] at h
  split at h
  · next found hfound =>
    cases h
    obtain ⟨hle, hfree, -⟩ := findFree?_eq_some hfound
    refine ⟨hle, ?_, hfree⟩
    obtain hfew | ⟨hwide, hlimit⟩ := hwraps
    · exact fits_of_few hreserved hregisters hfew hfound
    · exact fits_of_limit hregisters (MoveType.lt_of_fits_wide hregisters hwide) hlimit hfound
  · cases h

/-- A victim gives way: it moves to the spill area from now on. -/
theorem Sound.evict (h : Sound u config reserved done now scan)
    (hwraps : SpillNeverWraps config reserved scan) {victim : Piece}
    (hvictim : victim ∈ scan.active)
    (hlow : ¬ config.registers < victim.register + u.pool.width victim.value)
    (hevict : scan.evict u config reserved victim now = .ok next) :
    Sound u config reserved done now next := by
  have hothers : (scan.active.filter (·.value ≠ victim.value)).length < scan.active.length := by
    refine List.length_filter_lt_length_iff_exists.mpr ⟨victim, hvictim, by simp⟩
  rw [evict_eq] at hevict
  obtain ⟨register, hspill, rfl⟩ := map_eq_ok hevict
  obtain ⟨hle, hfits, hfree⟩ := spillRegister_spec hreserved hregisters
    (hwraps.of_length_le hothers.le) hspill
  refine ⟨?_, ?_, h.neverWraps.of_length_le ?_⟩
  · exact h.placed.evicted hreserved hvictim (Int64.le_trans hregisters hle) hfits hfree
  · exact h.recorded.evicted hvictim (h.placed.fits victim (List.mem_append_right _ hvictim)) hlow
      (h.placed.live victim hvictim) hle
  · rw [active_evicted, List.length_append, List.length_singleton]
    omega

end Steps

/-! ## The eviction loop -/

/-- Nothing has to give way to a value for which a register is free. -/
theorem placeEvicting_of_placeFree? {v : ValueId} {candidates : List Piece}
    (h : scan.placeFree? u config reserved v = some next) :
    placeEvicting u config reserved v scan candidates = .ok next := by
  cases candidates with
  | nil => rw [placeEvicting, h]
  | cons victim rest => rw [placeEvicting, h]

/-- What holds at every turn of the loop decides what holds at its end, whichever way the value
finds its place. The candidates that are left may be part of it. -/
theorem placeEvicting_induction {v : ValueId} {P : Scan → List Piece → Prop} {Q : Prop}
    {candidates : List Piece}
    (hfree : ∀ {current rest}, P current rest →
      current.placeFree? u config reserved v = some next → Q)
    (hspill : ∀ {current rest}, P current rest → current.placeFree? u config reserved v = none →
      current.spill u config reserved v = .ok next → Q)
    (hevict : ∀ {current evicted victim rest}, P current (victim :: rest) →
      current.placeFree? u config reserved v = none →
      current.evict u config reserved victim (u.value v).start = .ok evicted → P evicted rest)
    (h : P scan candidates)
    (hplace : placeEvicting u config reserved v scan candidates = .ok next) :
    Q := by
  induction candidates generalizing scan with
  | nil =>
    rw [placeEvicting] at hplace
    split at hplace
    · next placed hfound =>
      cases hplace
      exact hfree h hfound
    · next hfull => exact hspill h hfull hplace
  | cons victim rest ih =>
    rw [placeEvicting] at hplace
    split at hplace
    · next placed hfound =>
      cases hplace
      exact hfree h hfound
    · next hfull =>
      split at hplace
      · obtain ⟨evicted, hevicted, hplace⟩ := bind_eq_ok hplace
        exact ih (hevict h hfull hevicted) hplace
      · exact hspill h hfull hplace

/-- The pieces of a list are active, in allocatable registers, and of different values. -/
structure Evictable (u : CodeUnit) (config : Config) (scan : Scan) (victims : List Piece) :
    Prop where
  candidate : ∀ victim ∈ victims, victim ∈ scan.active ∧
    ¬ config.registers < victim.register + u.pool.width victim.value
  nodup : (victims.map (·.value)).Nodup

/-- Pieces stay where they are until it is their turn. -/
theorem Evictable.evict {victim : Piece} {rest : List Piece} {position : Position}
    (h : scan.Evictable u config (victim :: rest))
    (hevict : scan.evict u config reserved victim position = .ok next) :
    next.Evictable u config rest := by
  rw [evict_eq] at hevict
  obtain ⟨register, -, rfl⟩ := map_eq_ok hevict
  obtain ⟨hfirst, hnodup⟩ := List.nodup_cons.mp h.nodup
  refine ⟨fun other hother => ?_, hnodup⟩
  obtain ⟨hactive, hlow⟩ := h.candidate other (List.mem_cons_of_mem _ hother)
  have hne : other.value ≠ victim.value := fun heq => hfirst (List.mem_map.mpr ⟨other, hother, heq⟩)
  rw [active_evicted]
  exact ⟨List.mem_append_left _ (by simp [hactive, hne]), hlow⟩

/-- The candidates are the active pieces in allocatable registers. -/
theorem mem_candidates {piece : Piece} : piece ∈ scan.candidates u config ↔
    piece ∈ scan.active ∧ ¬ config.registers < piece.register + u.pool.width piece.value := by
  rw [candidates, (Sorting.sort_perm _ _).mem_iff]
  simp

theorem nodup_candidates (u : CodeUnit) (config : Config) (h : (scan.active.map (·.value)).Nodup) :
    ((scan.candidates u config).map (·.value)).Nodup := by
  refine (((Sorting.sort_perm _ _).map _).nodup_iff).mpr ?_
  exact h.sublist (List.Sublist.map _ List.filter_sublist)

/-- All candidates can give way one after another. -/
theorem evictable_candidates (u : CodeUnit) (config : Config)
    (h : (scan.active.map (·.value)).Nodup) :
    scan.Evictable u config (scan.candidates u config) :=
  ⟨fun _ => mem_candidates.mp, nodup_candidates u config h⟩

/-! ## Runs -/

/-- The values that are ahead of the scan at `now`, when the values `done` have been dealt with.
They are in the order of their starts. -/
structure Ahead (u : CodeUnit) (done : List ValueId) (now : Position) (vs : List ValueId) :
    Prop where
  nodup : vs.Nodup
  fresh : ∀ v ∈ vs, v ∉ done
  ordered : vs.Pairwise fun v w => (u.value v).start ≤ (u.value w).start
  later : ∀ v ∈ vs, now ≤ (u.value v).start
  proper : ∀ v ∈ vs, (u.value v).start < (u.value v).stop

/-- The scan goes on to the first of the values ahead. -/
theorem Ahead.step {v : ValueId} {vs : List ValueId} (h : Ahead u done now (v :: vs)) :
    v ∉ done ∧ now ≤ (u.value v).start ∧ (u.value v).start < (u.value v).stop ∧
      Ahead u (v :: done) (u.value v).start vs := by
  obtain ⟨hfirst, hnodup⟩ := List.nodup_cons.mp h.nodup
  obtain ⟨hfresh, hrest⟩ := List.forall_mem_cons.mp h.fresh
  obtain ⟨hstop, hproper⟩ := List.forall_mem_cons.mp h.proper
  refine ⟨hfresh, h.later v List.mem_cons_self, hstop, hnodup, fun w hw => ?_, h.ordered.of_cons,
    fun w hw => List.rel_of_pairwise_cons h.ordered hw, hproper⟩
  rw [List.mem_cons, not_or]
  exact ⟨fun heq => hfirst (heq ▸ hw), hrest w hw⟩

section Runs

variable (hu : u.NeverWraps config) (hreserved : reserved.Sound u)
  (hlength : reserved.pieces.length ≤ u.arguments.length + 2 * u.values.length)
  (hregisters : 0 ≤ config.registers)
include hu hreserved hlength hregisters

/-- A value that starts now finds its place, whichever way. -/
theorem Sound.placeEvicting {v : ValueId} {candidates : List Piece}
    (h : Sound u config reserved done now scan) (hdone : ∀ w ∈ v :: done, w ∈ u.values)
    (hv : v ∉ done) (hstart : (u.value v).start = now)
    (hstop : (u.value v).start < (u.value v).stop)
    (hcandidates : scan.Evictable u config candidates)
    (hplace : placeEvicting u config reserved v scan candidates = .ok next) :
    Sound u config reserved (v :: done) now next := by
  have hwraps : ∀ {current : Scan} (register : Register), Sound u config reserved done now current →
      NeverWraps config reserved (current.activate u v register) := fun register hcurrent =>
    (hcurrent.recorded.activate hv register).neverWraps hu hlength hdone
  refine placeEvicting_induction (P := fun current rest =>
    Sound u config reserved done now current ∧ current.Evictable u config rest) ?_ ?_ ?_
    ⟨h, hcandidates⟩ hplace
  · rintro current rest ⟨hcurrent, -⟩ hfound
    obtain ⟨register, hregister, rfl⟩ := Option.map_eq_some_iff.mp hfound
    obtain ⟨hle, hslots, -⟩ := findFree?_eq_some hregister
    have hfits := hcurrent.neverWraps.fits hreserved hregisters hregister
    exact hcurrent.activate hreserved hv hstart hstop hle hfits hslots (hwraps register hcurrent)
  · rintro current rest ⟨hcurrent, -⟩ hfull hspill
    obtain ⟨register, hregister, hspill⟩ := bind_eq_ok hspill
    cases hspill
    obtain ⟨hle, hfits, hslots⟩ := spillRegister_spec hreserved hregisters
      (hcurrent.neverWraps.spill hreserved hfull) hregister
    exact hcurrent.activate hreserved hv hstart hstop (Int64.le_trans hregisters hle) hfits hslots
      (hwraps register hcurrent)
  · rintro current evicted victim rest ⟨hcurrent, hvictims⟩ hfull hevict
    obtain ⟨hvictim, hlow⟩ := hvictims.candidate victim List.mem_cons_self
    exact ⟨hcurrent.evict hreserved hregisters (hcurrent.neverWraps.spill hreserved hfull)
      hvictim hlow (hstart ▸ hevict), hvictims.evict hevict⟩

/-- The scan of values in the order of their starts. -/
theorem Sound.placeAll {vs : List ValueId} (h : Sound u config reserved done now scan)
    (hvalues : ∀ v ∈ vs ++ done, v ∈ u.values) (hahead : Ahead u done now vs)
    (hplace : placeAll u config reserved scan vs = .ok next) :
    ∃ last, Sound u config reserved (vs.reverse ++ done) last next := by
  induction vs generalizing scan now done with
  | nil =>
    cases hplace
    exact ⟨now, h⟩
  | cons v vs ih =>
    rw [Scan.placeAll] at hplace
    obtain ⟨placed, hv, hplace⟩ := bind_eq_ok hplace
    obtain ⟨hnew, hlater, hstop, hahead⟩ := hahead.step
    have hexpire := h.expire hlater
    have hvalues' : ∀ w ∈ vs ++ v :: done, w ∈ u.values := by
      intro w hw
      refine hvalues w ?_
      simp only [List.cons_append, List.mem_cons, List.mem_append] at hw ⊢
      grind
    have hplaced := hexpire.placeEvicting hu hreserved hlength hregisters
      (fun w hw => hvalues' w (List.mem_append_right _ hw)) hnew rfl hstop
      (evictable_candidates u config hexpire.recorded.nodup) hv
    obtain ⟨last, hlast⟩ := ih hplaced hvalues' hahead hplace
    refine ⟨last, ?_⟩
    rw [List.reverse_cons, List.append_assoc]
    exact hlast

end Runs

/-- Values are queued in the order of their starts. -/
theorem startsBefore_follows (pool : Pool) :
    Sorting.Follows (startsBefore pool) fun v => (pool.value v).start := by
  constructor <;> intro v w h <;> simp only [startsBefore] at h <;> grind

/-- The scan deals with the values that need a register and have none yet. -/
theorem unplaced_spec {vs ws : List ValueId} (h : unplaced u reserved vs = .ok ws) :
    ws.Sublist vs ∧ ∀ v, v ∈ ws ↔
      v ∈ vs ∧ u.pool.needsRegister v = .ok true ∧ Piece.ofValue reserved.pieces v = [] := by
  induction vs generalizing ws with
  | nil =>
    cases h
    exact ⟨List.Sublist.refl _, by simp⟩
  | cons v vs ih =>
    rw [unplaced] at h
    obtain ⟨needs, hneeds, h⟩ := bind_eq_ok h
    by_cases hplace : needs = true ∧ (Piece.ofValue reserved.pieces v).isEmpty = true
    · rw [if_pos hplace] at h
      obtain ⟨rest, hrest, h⟩ := bind_eq_ok h
      cases h
      obtain ⟨hsub, hmem⟩ := ih hrest
      refine ⟨hsub.cons_cons v, fun w => ?_⟩
      rw [List.mem_cons, List.mem_cons, hmem]
      constructor
      · rintro (rfl | ⟨hw, hrest⟩)
        · exact ⟨.inl rfl, hplace.1 ▸ hneeds, List.isEmpty_iff.mp hplace.2⟩
        · exact ⟨.inr hw, hrest⟩
      · rintro ⟨rfl | hw, hrest⟩
        · exact .inl rfl
        · exact .inr ⟨hw, hrest⟩
    · rw [if_neg hplace] at h
      obtain ⟨hsub, hmem⟩ := ih h
      refine ⟨hsub.cons v, fun w => ?_⟩
      rw [List.mem_cons, hmem]
      constructor
      · rintro ⟨hw, hrest⟩
        exact ⟨.inr hw, hrest⟩
      · rintro ⟨rfl | hw, hneed, hnone⟩
        · rw [hneeds] at hneed
          exact absurd ⟨Except.ok.inj hneed, List.isEmpty_iff.mpr hnone⟩ hplace
        · exact ⟨hw, hneed, hnone⟩

/-- The values to be placed are taken in the order of their starts. -/
theorem queue_spec (hnodup : u.values.Nodup)
    (hintervals : Allocation.checkIntervals u u.values = .ok ()) {vs : List ValueId}
    (h : unplaced u reserved u.values = .ok vs) :
    let queue := (PriorityQueue.ofList (startsBefore u.pool) vs).drain (startsBefore u.pool)
    Ahead u [] Int64.minValue queue ∧
      ∀ v, v ∈ queue ↔ v ∈ u.values ∧ u.pool.needsRegister v = .ok true ∧
        Piece.ofValue reserved.pieces v = [] := by
  obtain ⟨hsub, hmem⟩ := unplaced_spec h
  have hperm := PriorityQueue.drain_ofList_perm (startsBefore u.pool) vs
  have hordered := PriorityQueue.drain_ofList_ordered (startsBefore_follows u.pool).agrees vs
  refine ⟨⟨hperm.nodup_iff.mpr (hnodup.sublist hsub), by simp, hordered,
    fun v _ => Int64.minValue_le _, fun v hv => ?_⟩, fun v => ?_⟩
  · obtain ⟨hvalues, hneeds, -⟩ := (hmem v).mp (hperm.subset hv)
    have hinterval := (Allocation.checkIntervals_iff.mp hintervals v hvalues).2 hneeds
    simpa [Value.hasInterval] using hinterval
  · rw [hperm.mem_iff, hmem]

/-- The scan of a unit places the values that need a register and have none yet, in the order of
their starts. -/
theorem ofUnit_spec (hnodup : u.values.Nodup)
    (hintervals : Allocation.checkIntervals u u.values = .ok ())
    (h : ofUnit u config reserved = .ok scan) :
    ∃ vs, placeAll u config reserved {} vs = .ok scan ∧ Ahead u [] Int64.minValue vs ∧
      ∀ v, v ∈ vs ↔ v ∈ u.values ∧ u.pool.needsRegister v = .ok true ∧
        Piece.ofValue reserved.pieces v = [] := by
  rw [ofUnit] at h
  obtain ⟨vs, hvs, h⟩ := bind_eq_ok h
  exact ⟨_, h, queue_spec hnodup hintervals (Failure.lift_eq_ok hvs)⟩

/-- After the scan of a unit its values have been dealt with. -/
theorem sound_ofUnit (hu : u.WellFormed config) (hreserved : reserved.Sound u)
    (hlength : reserved.pieces.length ≤ u.arguments.length + 2 * u.values.length)
    (hregisters : 0 ≤ config.registers)
    (hintervals : Allocation.checkIntervals u u.values = .ok ())
    (h : ofUnit u config reserved = .ok scan) :
    ∃ done last, Sound u config reserved done last scan ∧ ∀ v, v ∈ done ↔
      v ∈ u.values ∧ u.pool.needsRegister v = .ok true ∧ Piece.ofValue reserved.pieces v = [] := by
  obtain ⟨vs, hplace, hahead, hmem⟩ := ofUnit_spec hu.nodup hintervals h
  have hempty := recorded_empty u config
  have hsound : Sound u config reserved [] Int64.minValue {} :=
    ⟨placed_empty u reserved _, hempty, hempty.neverWraps hu.neverWraps hlength (by simp)⟩
  obtain ⟨last, hlast⟩ := hsound.placeAll hu.neverWraps hreserved hlength hregisters
    (fun v hv => ((hmem v).mp (by simpa using hv)).1) hahead hplace
  refine ⟨_, last, hlast, fun v => ?_⟩
  rw [List.append_nil, List.mem_reverse, hmem]

end Scan
end RegisterAllocation
