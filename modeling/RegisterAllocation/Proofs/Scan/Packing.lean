import RegisterAllocation.Proofs.Orderly
import RegisterAllocation.Proofs.Scan.Run

/-!
# The scan packs values of one slot

Where all values take one slot and none has a fixed register, the scan gives a value a register only
if every register below is taken at that very position, be it among the allocatable registers or in
the spill area. The values that take them are all live there, so that no register is at or above the
largest number of values that are live at one position (`Scan.Packed`). The same holds of the spill
area when it is full, so that the scan fails only if there are more live values than registers
(`Scan.packs_ofUnit`).
-/

namespace RegisterAllocation

namespace CodeUnit

/-- Whether a value has to be in a register at a position. -/
def occupies (u : CodeUnit) (position : Position) (v : ValueId) : Bool :=
  (match u.pool.needsRegister v with
    | .ok needs => needs
    | .error _ => false) && (u.value v).liveAt position

/-- How many values have to be in registers at a position. -/
def pressure (u : CodeUnit) (position : Position) : Nat := u.values.countP (u.occupies position)

/-- A value occupies a register where it needs one and is live. -/
theorem occupies_iff {u : CodeUnit} {position : Position} {v : ValueId} :
    u.occupies position v = true ↔
      u.pool.needsRegister v = .ok true ∧ (u.value v).liveAt position = true := by
  rw [occupies, Bool.and_eq_true]
  split <;> simp_all

/-- The values that need registers take one slot each, all are free to be in any register, and there
are no copies. -/
structure OneSlot (u : CodeUnit) : Prop where
  nodup : u.values.Nodup
  size : u.values.length < 2 ^ 63
  arguments : u.arguments = []
  copies : u.copies = []
  ranges : ∀ i ∈ u.instrs, (u.instr i).opcode = .invokeRange → (u.instr i).inputs = []
  needs : ∀ v ∈ u.values, ∃ needs, u.pool.needsRegister v = .ok needs
  free : ∀ v ∈ u.values, u.pool.needsRegister v = .ok true →
    (u.value v).type ≠ .wide ∧ (u.value v).hasInterval = true ∧ (u.value v).fixed = none

/-- A value of a unit that needs a register. -/
def Needy (u : CodeUnit) (v : ValueId) : Prop :=
  v ∈ u.values ∧ u.pool.needsRegister v = .ok true

theorem OneSlot.width {u : CodeUnit} (hu : u.OneSlot) {v : ValueId} (hv : u.Needy v) :
    (u.value v).type.width = 1 := by
  have hnarrow := (hu.free v hv.1 hv.2).1
  cases htype : (u.value v).type with
  | wide => exact absurd htype hnarrow
  | single => rfl
  | object => rfl

end CodeUnit

/-- The pieces of a value are within its interval. -/
theorem Piece.Layout.within {u : CodeUnit} {config : Config} {v : ValueId} {own : List Piece}
    (h : Layout u config v own) {piece : Piece} (hpiece : piece ∈ own) :
    (u.value v).start ≤ piece.start ∧ piece.stop ≤ (u.value v).stop := by
  cases h with
  | whole register =>
    rw [List.mem_singleton.mp hpiece]
    exact ⟨Int64.le_refl _, Int64.le_refl _⟩
  | split register spill cut hstart hstop =>
    obtain rfl | hpiece := List.mem_cons.mp hpiece
    · exact ⟨Int64.le_refl _, Int64.le_of_lt hstop⟩
    · rw [List.mem_singleton.mp hpiece]
      exact ⟨Int64.le_of_lt hstart, Int64.le_refl _⟩

namespace Scan

variable {u : CodeUnit} {config : Config} {scan next : Scan} {now : Position}
  {done : List ValueId} {limit : Nat} {type : MoveType} {low high register : Register}
  {start stop : Position} {v : ValueId}

/-! ## Searching for one slot -/

def Taken (u : CodeUnit) (scan : Scan) (slot : Register) : Prop :=
  ∃ piece ∈ scan.active, piece.usesSlot u.pool slot = true

/-- A slot is free if no active piece takes it. -/
theorem slotFree_iff_not_taken {live : LiveRange} {slot : Register} :
    scan.slotFree u {} live slot = true ↔ ¬ scan.Taken u slot := by
  simp [slotFree_iff, Taken, Reserved.rangeAt, LiveRange.conflicts, LiveRange.empty, LiveRange.meet]

/-- Where a value of one slot cannot be, that slot is taken. -/
theorem taken_of_not_free (hwidth : type.width = 1) {live : LiveRange}
    (h : (type.span register).all (scan.slotFree u {} live) = false) : scan.Taken u register := by
  obtain ⟨slot, hslot, htaken⟩ := List.all_eq_false.mp h
  obtain rfl : slot = register := by
    rw [MoveType.mem_span, hwidth] at hslot
    grind
  rw [slotFree_iff_not_taken] at htaken
  exact not_not.mp htaken

/-- All slots below the register that is found are taken. -/
theorem taken_of_findFree?_eq_some (hwidth : type.width = 1)
    (h : scan.findFree? u {} low high type start stop = some register) :
    low ≤ register ∧ ∀ slot, low ≤ slot → slot < register → scan.Taken u slot := by
  obtain ⟨hle, -, hpassed⟩ := findFree?_eq_some h
  exact ⟨hle, fun slot hlow hhigh => taken_of_not_free hwidth (hpassed slot hlow hhigh)⟩

/-- If no register is found, all slots are taken. -/
theorem taken_of_findFree?_eq_none (hwidth : type.width = 1) (hlow : 0 ≤ low)
    (h : scan.findFree? u {} low high type start stop = none) :
    ∀ slot, low ≤ slot → slot < high → scan.Taken u slot := by
  obtain ⟨register, -, hend, hpassed⟩ := findFree?_eq_none hlow h
  -- the search has come to the end, whether register numbers end there or not
  have hle : high ≤ register := by
    rw [hwidth] at hend
    grind
  exact fun slot hslot hhigh =>
    taken_of_not_free hwidth (hpassed slot hslot (Int64.lt_of_lt_of_le hhigh hle))

/-- If no register is free, all allocatable ones are taken. -/
theorem taken_of_placeFree?_eq_none (hwidth : (u.value v).type.width = 1)
    (h : scan.placeFree? u config {} v = none) :
    ∀ slot, 0 ≤ slot → slot < config.registers → scan.Taken u slot :=
  taken_of_findFree?_eq_none hwidth (Int64.le_refl 0) (Option.map_eq_none_iff.mp h)

/-! ## Packed scans -/

/-- Nothing is at or above `limit`, and there are no moves if that many registers are
allocatable. -/
structure Packed (u : CodeUnit) (config : Config) (limit : Nat) (done : List ValueId)
    (now : Position) (scan : Scan) : Prop where
  placed : scan.Placed u {} now
  recorded : scan.Recorded u config done
  needy : ∀ v ∈ done, u.Needy v
  below : ∀ piece ∈ scan.ended ++ scan.active, piece.register.toInt < limit
  moves : (limit : Int) ≤ config.registers.toInt → scan.moves = []

theorem packed_empty (u : CodeUnit) (config : Config) (limit : Nat) (now : Position) :
    Packed u config limit [] now {} :=
  ⟨placed_empty u {} now, recorded_empty u config, by simp, by simp, fun _ => rfl⟩

/-- Pieces that have ended leave the rest packed. -/
theorem Packed.expire (h : scan.Packed u config limit done now) {position : Position}
    (hle : now ≤ position) : (scan.expire position).Packed u config limit done position :=
  ⟨h.placed.expire hle, h.recorded.expire position, h.needy,
    fun piece hpiece => h.below piece (mem_of_mem_expire hpiece), h.moves⟩

/-- The active values and one that starts now are all live now, so there is room for it. -/
theorem Packed.length_lt (hlimit : ∀ position, u.pressure position ≤ limit)
    (h : scan.Packed u config limit done now) (hv : u.Needy v) (hnew : v ∉ done)
    (hstart : (u.value v).start = now) (hstop : (u.value v).start < (u.value v).stop) :
    scan.active.length < limit := by
  have hactive : ∀ piece ∈ scan.active, piece.value ∈ done := fun piece hpiece =>
    h.recorded.among piece (List.mem_append_right _ hpiece)
  have hnodup : (v :: scan.active.map (·.value)).Nodup := by
    refine List.nodup_cons.mpr ⟨fun hmem => ?_, h.recorded.nodup⟩
    obtain ⟨piece, hpiece, heq⟩ := List.mem_map.mp hmem
    exact hnew (heq ▸ hactive piece hpiece)
  have hlive : ∀ w ∈ v :: scan.active.map (·.value), w ∈ u.values.filter (u.occupies now) := by
    intro w hw
    rw [List.mem_filter, CodeUnit.occupies_iff]
    obtain rfl | hw := List.mem_cons.mp hw
    · exact ⟨hv.1, hv.2, by simpa [Value.liveAt, hstart] using hstart ▸ hstop⟩
    · obtain ⟨piece, hpiece, rfl⟩ := List.mem_map.mp hw
      obtain ⟨hvalues, hneeds⟩ := h.needy _ (hactive piece hpiece)
      have hown : piece ∈ Piece.ofValue (scan.ended ++ scan.active) piece.value :=
        Piece.mem_ofValue.mpr ⟨List.mem_append_right _ hpiece, rfl⟩
      have hwithin := (h.recorded.layout _ (hactive piece hpiece)).within hown
      have hcovers := h.placed.live piece hpiece
      have hbounds : (u.value piece.value).start ≤ now ∧ now < (u.value piece.value).stop := by
        grind
      exact ⟨hvalues, hneeds, by simpa [Value.liveAt] using hbounds⟩
  have hlength := (List.subperm_of_subset hnodup hlive).length_le
  rw [List.length_cons, List.length_map, ← List.countP_eq_length_filter] at hlength
  exact Nat.lt_of_lt_of_le hlength (hlimit now)

/-- A value that starts now is put in a slot that is free. -/
theorem Packed.activate (h : scan.Packed u config limit done now) (hv : u.Needy v)
    (hnew : v ∉ done) (hstart : (u.value v).start = now)
    (hstop : (u.value v).start < (u.value v).stop) (hnonneg : 0 ≤ register)
    (hbelow : register.toInt < limit) (hfits : (u.value v).type.Fits register)
    (hfree : ∀ slot ∈ (u.value v).type.span register,
      scan.slotFree u {} (.single (u.value v).start (u.value v).stop) slot = true) :
    (scan.activate u v register).Packed u config limit (v :: done) now := by
  refine ⟨h.placed.activate (Reserved.sound_empty u) hstart hstop hnonneg hfits hfree,
    h.recorded.activate hnew register, List.forall_mem_cons.mpr ⟨hv, h.needy⟩, ?_, h.moves⟩
  intro piece hpiece
  obtain hpiece | rfl := mem_activate hpiece
  · exact h.below piece hpiece
  · exact hbelow

section Steps

variable (hu : u.OneSlot) (h : scan.Packed u config limit done now)
include hu h

/-- An active piece takes its register and no other slot. -/
theorem Packed.usesSlot_iff {piece : Piece} (hpiece : piece ∈ scan.active) {slot : Register} :
    piece.usesSlot u.pool slot = true ↔ slot = piece.register := by
  have hmem : piece ∈ scan.ended ++ scan.active := List.mem_append_right _ hpiece
  have hwidth := hu.width (h.needy _ (h.recorded.among piece hmem))
  have hfits := (h.placed.fits piece hmem).2
  rw [Piece.usesSlot_iff_mem_span, MoveType.mem_span]
  rw [MoveType.Fits] at hfits
  rw [CodeUnit.value] at hwidth
  rw [hwidth] at hfits ⊢
  grind

/-- There are at least as many active pieces as slots that are taken. -/
theorem Packed.le_length (htaken : ∀ slot, 0 ≤ slot → slot < high → scan.Taken u slot) :
    high.toInt ≤ scan.active.length := by
  have hle := @Register.sub_le_length 0 high (scan.active.map (·.register))
    fun slot hlow hhigh => by
    obtain ⟨piece, hpiece, huses⟩ := htaken slot hlow hhigh
    exact List.mem_map.mpr ⟨piece, hpiece, ((h.usesSlot_iff hu hpiece).mp huses).symm⟩
  simpa using hle

/-- A register below which all slots are taken is below the limit, if there is room for one more. -/
theorem Packed.below_of_taken (hroom : scan.active.length < limit) (hsize : limit < 2 ^ 63)
    (htaken : ∀ slot, 0 ≤ slot → slot < register → scan.Taken u slot) :
    register.toInt < limit ∧ ∀ type : MoveType, type.width = 1 → type.Fits register := by
  have hle := h.le_length hu htaken
  refine ⟨by omega, fun type hwidth => ?_⟩
  have hlow := Int64.le_toInt register
  have hone : (1 : Int64).toInt = 1 := by decide
  rw [MoveType.Fits, hwidth, Int64.lt_iff_toInt_lt, Int64.toInt_add, hone,
    Int.bmod_eq_of_le (by omega) (by omega)]
  omega

end Steps

/-! ## One value -/

/-- A computation succeeds with a result that satisfies `P`, or there are too few registers. -/
def Packs {α : Type} (config : Config) (limit : Nat) (P : α → Prop) : Except Failure α → Prop
  | .ok a => P a
  | .error _ => config.maxRegisters.toInt < limit

/-- A computation in two parts packs if both parts do. -/
theorem Packs.bind {α β : Type} {P : α → Prop} {Q : β → Prop} {x : Except Failure α}
    {f : α → Except Failure β} (hx : Packs config limit P x)
    (hf : ∀ a, P a → Packs config limit Q (f a)) : Packs config limit Q (x >>= f) := by
  cases x with
  | error failure => exact hx
  | ok a => exact hf a hx

theorem Packs.imp {α : Type} {P Q : α → Prop} {x : Except Failure α} (hx : Packs config limit P x)
    (h : ∀ a, P a → Q a) : Packs config limit Q x := by
  cases x with
  | error failure => exact hx
  | ok a => exact h a hx

theorem Packs.map {α β : Type} {P : α → Prop} {Q : β → Prop} {x : Except Failure α} {f : α → β}
    (hx : Packs config limit P x) (hf : ∀ a, P a → Q (f a)) : Packs config limit Q (x.map f) := by
  cases x with
  | error failure => exact hx
  | ok a => exact hf a hx

section Place

variable (hu : u.OneSlot) (hsize : limit < 2 ^ 63) (hregisters : 0 ≤ config.registers)
include hu hsize hregisters

/-- When the allocatable registers are full, the spill area has the next register, or is full
too. -/
theorem Packed.spillRegister (h : scan.Packed u config limit done now)
    (hroom : scan.active.length < limit)
    (hfull : ∀ slot, 0 ≤ slot → slot < config.registers → scan.Taken u slot) {w : ValueId}
    (hw : u.Needy w) {others : List Piece} (hothers : others ⊆ scan.active) :
    Packs config limit (fun register => config.registers ≤ register ∧ register.toInt < limit ∧
        (u.value w).type.Fits register ∧ ∀ slot ∈ (u.value w).type.span register,
          ({ scan with active := others } : Scan).slotFree u {} (.single start stop) slot = true)
      (({ scan with active := others } : Scan).spillRegister u config {} w start stop) := by
  have hwidth := hu.width hw
  -- the slots below the spill area are taken too
  have hbelow : ∀ {high}, (∀ slot, config.registers ≤ slot → slot < high →
      ({ scan with active := others } : Scan).Taken u slot) →
      ∀ slot, 0 ≤ slot → slot < high → scan.Taken u slot := by
    intro high hpassed slot hlow hhigh
    by_cases hslot : slot < config.registers
    · exact hfull slot hlow hslot
    · obtain ⟨piece, hpiece, huses⟩ := hpassed slot (Int64.not_lt.mp hslot) hhigh
      exact ⟨piece, hothers hpiece, huses⟩
  rw [Scan.spillRegister]
  split
  · next register hfound =>
    obtain ⟨hle, hpassed⟩ := taken_of_findFree?_eq_some hwidth hfound
    obtain ⟨hlast, hfits⟩ := h.below_of_taken hu hroom hsize (hbelow hpassed)
    exact ⟨hle, hlast, hfits _ hwidth, (findFree?_eq_some hfound).2.1⟩
  · next hnone =>
    have hle := h.le_length hu (hbelow (taken_of_findFree?_eq_none hwidth hregisters hnone))
    show config.maxRegisters.toInt < limit
    omega

omit hu hsize hregisters in
/-- A victim brings in no register but its new one. -/
theorem register_of_mem_evicted {victim piece : Piece} (hvictim : victim ∈ scan.active)
    (h : piece ∈ (scan.evicted u victim now register).ended ++
      (scan.evicted u victim now register).active) :
    piece.register = register ∨
      ∃ other ∈ scan.ended ++ scan.active, other.register = piece.register := by
  obtain hended | rfl | hactive | rfl := mem_evicted h
  · exact .inr ⟨piece, List.mem_append_left _ hended, rfl⟩
  · exact .inr ⟨victim, List.mem_append_right _ hvictim, rfl⟩
  · exact .inr ⟨piece, List.mem_append_right _ (List.mem_of_mem_filter hactive), rfl⟩
  · exact .inl rfl

section Victim

variable (h : scan.Packed u config limit done now) {victim : Piece} (hvictim : victim ∈ scan.active)
  (hlow : ¬ config.registers < victim.register + u.pool.width victim.value)
include h hvictim hlow

omit hu hsize in
/-- A victim that goes to the next free register leaves the scan packed. -/
theorem Packed.evicted (hspill : config.registers ≤ register) (hbelow : register.toInt < limit)
    (hfits : (u.value victim.value).type.Fits register)
    (hfree : ∀ slot ∈ (u.value victim.value).type.span register,
      ({ scan with active := scan.active.filter (·.value ≠ victim.value) } : Scan).slotFree u {}
        (.single now victim.stop) slot = true) :
    (scan.evicted u victim now register).Packed u config limit done now := by
  have hheld := h.placed.fits victim (List.mem_append_right _ hvictim)
  refine ⟨h.placed.evicted (Reserved.sound_empty u) hvictim (Int64.le_trans hregisters hspill)
    hfits hfree, h.recorded.evicted hvictim hheld hlow (h.placed.live victim hvictim) hspill,
    h.needy, fun piece hpiece => ?_, fun hle => ?_⟩
  · obtain heq | ⟨other, hother, heq⟩ := register_of_mem_evicted hvictim hpiece
    · rw [heq]
      exact hbelow
    · rw [← heq]
      exact h.below other hother
  · -- a register in the spill area is below the limit, so not that many are allocatable
    rw [Int64.le_iff_toInt_le] at hspill
    omega

/-- A victim makes room for a value of one slot. -/
theorem Packed.evict (hroom : scan.active.length < limit)
    (hfull : ∀ slot, 0 ≤ slot → slot < config.registers → scan.Taken u slot) :
    Packs config limit (fun next => next.Packed u config limit done now ∧
        ∃ slot, 0 ≤ slot ∧ slot < config.registers ∧ ¬ next.Taken u slot)
      (scan.evict u config {} victim now) := by
  have hmem : victim ∈ scan.ended ++ scan.active := List.mem_append_right _ hvictim
  have hheld := h.placed.fits victim hmem
  have hfilter : scan.active.filter (·.value ≠ victim.value) ⊆ scan.active :=
    fun piece hpiece => List.mem_of_mem_filter hpiece
  obtain ⟨-, -, hbelow⟩ := h.recorded.whole_of_candidate hvictim hheld hlow
  rw [evict_eq]
  refine (h.spillRegister hu hsize hregisters hroom hfull
    (h.needy _ (h.recorded.among victim hmem)) hfilter).map ?_
  rintro register ⟨hspill, hlast, hfits, hfree⟩
  have hnext := h.evicted hregisters hvictim hlow hspill hlast hfits hfree
  refine ⟨hnext, victim.register, hheld.1, hbelow, ?_⟩
  rintro ⟨piece, hpiece, huses⟩
  have heq := (hnext.usesSlot_iff hu hpiece).mp huses
  rw [active_evicted, List.mem_append, List.mem_singleton] at hpiece
  obtain hpiece | rfl := hpiece
  · -- the victim was alone in its slot
    obtain ⟨hactive, hne⟩ : piece ∈ scan.active ∧ piece.value ≠ victim.value := by
      simpa using hpiece
    obtain rfl | hdisjoint := h.placed.disjoint piece hactive victim hvictim
    · exact hne rfl
    · have hunused := hdisjoint victim.register huses
      rw [(h.usesSlot_iff hu hvictim).mpr rfl] at hunused
      exact Bool.noConfusion hunused
  · exact absurd hbelow (Int64.not_lt.mpr (heq ▸ hspill))

end Victim

variable (hlimit : ∀ position, u.pressure position ≤ limit) (hv : u.Needy v) (hnew : v ∉ done)
  (hstart : (u.value v).start = now) (hstop : (u.value v).start < (u.value v).stop)
include hlimit hv hnew hstart hstop

omit hregisters in
/-- A value in the first free register leaves the scan packed. -/
theorem Packed.placeFree? (h : scan.Packed u config limit done now)
    (hfound : scan.placeFree? u config {} v = some next) :
    next.Packed u config limit (v :: done) now := by
  obtain ⟨register, hregister, rfl⟩ := Option.map_eq_some_iff.mp hfound
  have hwidth := hu.width hv
  have hroom := h.length_lt hlimit hv hnew hstart hstop
  obtain ⟨hnonneg, htaken⟩ := taken_of_findFree?_eq_some hwidth hregister
  obtain ⟨hbelow, hfits⟩ := h.below_of_taken hu hroom hsize htaken
  exact h.activate hv hnew hstart hstop hnonneg hbelow (hfits _ hwidth)
    (findFree?_eq_some hregister).2.1

/-- A value in the first free spill register leaves the scan packed. -/
theorem Packed.spill (h : scan.Packed u config limit done now)
    (hfull : ∀ slot, 0 ≤ slot → slot < config.registers → scan.Taken u slot) :
    Packs config limit (·.Packed u config limit (v :: done) now) (scan.spill u config {} v) := by
  have hroom := h.length_lt hlimit hv hnew hstart hstop
  refine (h.spillRegister hu hsize hregisters hroom hfull hv (List.Subset.refl _)).bind ?_
  rintro register ⟨hle, hbelow, hfits, hfree⟩
  exact h.activate hv hnew hstart hstop (Int64.le_trans hregisters hle) hbelow hfits hfree

/-- A value that starts now finds a place: at once, after one victim has given way, or in the spill
area. -/
theorem Packed.placeEvicting (h : scan.Packed u config limit done now) {candidates : List Piece}
    (hcandidates : ∀ victim ∈ candidates, victim ∈ scan.active ∧
      ¬ config.registers < victim.register + u.pool.width victim.value) :
    Packs config limit (·.Packed u config limit (v :: done) now)
      (placeEvicting u config {} v scan candidates) := by
  have hplaced : ∀ {current placed : Scan}, current.Packed u config limit done now →
      current.placeFree? u config {} v = some placed →
      placed.Packed u config limit (v :: done) now :=
    fun hcurrent hfound => hcurrent.placeFree? hu hsize hlimit hv hnew hstart hstop hfound
  cases hfound : scan.placeFree? u config {} v with
  | some placed =>
    rw [placeEvicting_of_placeFree? hfound]
    exact hplaced h hfound
  | none =>
    have hfull := taken_of_placeFree?_eq_none (hu.width hv) hfound
    have hspill := h.spill hu hsize hregisters hlimit hv hnew hstart hstop hfull
    cases candidates with
    | nil =>
      rw [Scan.placeEvicting, hfound]
      exact hspill
    | cons victim rest =>
      obtain ⟨hvictim, hlow⟩ := hcandidates victim List.mem_cons_self
      have hroom := h.length_lt hlimit hv hnew hstart hstop
      rw [Scan.placeEvicting, hfound]
      dsimp only
      split
      · rw [hstart]
        refine (h.evict hu hsize hregisters hvictim hlow hroom hfull).bind ?_
        rintro evicted ⟨hevicted, slot, hnonneg, hslot, hfree⟩
        cases hagain : evicted.placeFree? u config {} v with
        | some placed =>
          rw [placeEvicting_of_placeFree? hagain]
          exact hplaced hevicted hagain
        | none =>
          exact absurd (taken_of_placeFree?_eq_none (hu.width hv) hagain slot hnonneg hslot) hfree
      · exact hspill

end Place

/-! ## All values -/

/-- The scan stays packed to its end. -/
theorem Packed.placeAll (hu : u.OneSlot) (hsize : limit < 2 ^ 63)
    (hregisters : 0 ≤ config.registers) (hlimit : ∀ position, u.pressure position ≤ limit)
    {vs : List ValueId} (h : scan.Packed u config limit done now) (hvs : ∀ v ∈ vs, u.Needy v)
    (hahead : Ahead u done now vs) :
    Packs config limit (fun next => ∃ last, next.Packed u config limit (vs.reverse ++ done) last)
      (placeAll u config {} scan vs) := by
  induction vs generalizing scan now done with
  | nil => exact ⟨now, h⟩
  | cons v vs ih =>
    obtain ⟨hv, hvs⟩ := List.forall_mem_cons.mp hvs
    obtain ⟨hnew, hlater, hstop, hahead⟩ := hahead.step
    refine ((h.expire hlater).placeEvicting hu hsize hregisters hlimit hv hnew rfl hstop
      fun victim => mem_candidates.mp).bind fun placed hplaced => ?_
    have hrest := ih hplaced hvs hahead
    rw [List.reverse_cons, List.append_assoc]
    exact hrest

/-- The scan of a unit packs the values that need registers, or there are too few registers. -/
theorem packs_ofUnit (hu : u.OneSlot) (hsize : limit < 2 ^ 63) (hregisters : 0 ≤ config.registers)
    (hlimit : ∀ position, u.pressure position ≤ limit)
    (hintervals : Allocation.checkIntervals u u.values = .ok ()) :
    Packs config limit
      (fun scan => ∃ done last, scan.Packed u config limit done last ∧ ∀ v, v ∈ done ↔ u.Needy v)
      (ofUnit u config {}) := by
  obtain ⟨vs, hvs⟩ := @exists_unplaced u {} u.values hu.needs
  obtain ⟨hahead, hmem⟩ := queue_spec hu.nodup hintervals hvs
  have hneedy : ∀ v, v ∈ (PriorityQueue.ofList (startsBefore u.pool) vs).drain
      (startsBefore u.pool) ↔ u.Needy v := by
    intro v
    rw [hmem, CodeUnit.Needy]
    simp [Piece.ofValue]
  have hpacks := (packed_empty u config limit Int64.minValue).placeAll hu hsize hregisters hlimit
    (fun v hv => (hneedy v).mp hv) hahead
  rw [ofUnit, hvs]
  refine hpacks.imp ?_
  rintro scan ⟨last, hpacked⟩
  refine ⟨_, last, hpacked, fun v => ?_⟩
  rw [List.append_nil, List.mem_reverse, hneedy]

end Scan
end RegisterAllocation
