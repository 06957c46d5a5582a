import RegisterAllocation.Allocation.Moves
import RegisterAllocation.Proofs.Basic
import RegisterAllocation.Proofs.Footprint
import RegisterAllocation.Proofs.LiveRange

/-!
# Fixed registers do not clash

For every slot the positions at which it is taken are written down, and a value is placed in a slot
only where these leave room. So the values with fixed registers never take a slot at the same
position, as long as what is written down is complete (`Reserved.Sound`).
-/

namespace RegisterAllocation

/-- Two pieces do not take a slot at the same position. -/
def Piece.Apart (pool : Pool) (piece other : Piece) : Prop :=
  ∀ position slot, piece.covers position = true → other.covers position = true →
    piece.usesSlot pool slot = true → other.usesSlot pool slot = false

/-- Being apart goes both ways. -/
theorem Piece.Apart.symm {pool : Pool} {piece other : Piece} (h : piece.Apart pool other) :
    other.Apart pool piece := by
  intro position slot hother hpiece huses
  by_contra hne
  have hfalse := h position slot hpiece hother (by simpa using hne)
  rw [huses] at hfalse
  exact Bool.noConfusion hfalse

instance (pool : Pool) : Std.Symm (Piece.Apart pool) := ⟨fun _ _ h => h.symm⟩

/-- A piece is in registers that there are, and its end does not wrap around. -/
def Piece.Fits (pool : Pool) (piece : Piece) : Prop :=
  0 ≤ piece.register ∧ (pool.value piece.value).type.Fits piece.register

/-- A piece spans the whole live interval of its value. -/
def Piece.Whole (pool : Pool) (piece : Piece) : Prop :=
  piece.start = (pool.value piece.value).start ∧ piece.stop = (pool.value piece.value).stop

theorem Pool.toInt_width (pool : Pool) (v : ValueId) :
    (pool.width v).toInt = 1 ∨ (pool.width v).toInt = 2 :=
  (pool.value v).type.toInt_width

namespace CodeUnit

/-- The live interval of a value of the unit has positions and stops here. -/
def EndsAt (u : CodeUnit) (position : Position) : Prop :=
  ∃ v ∈ u.values, (u.value v).start < (u.value v).stop ∧ (u.value v).stop = position

/-- The live interval of an argument starts here and stops before. -/
def FlipsAt (u : CodeUnit) (position : Position) : Prop :=
  ∃ v ∈ u.arguments, (u.value v).stop < (u.value v).start ∧ (u.value v).start = position

/-- The interval of a value can be written down without harm to others. -/
def Writable (u : CodeUnit) (v : ValueId) : Prop :=
  Interval.Within u.EndsAt u.FlipsAt ⟨(u.value v).start, (u.value v).stop⟩

/-- An interval that has positions can be written down. -/
theorem writable_of_hasInterval {u : CodeUnit} {v : ValueId} (hv : v ∈ u.values)
    (h : (u.value v).hasInterval = true) : u.Writable v := by
  have hlt : (u.value v).start < (u.value v).stop := by simpa [Value.hasInterval] using h
  exact ⟨fun _ => ⟨v, hv, hlt, rfl⟩, fun hflips => by grind⟩

/-- The interval of an argument can be written down. -/
theorem writable_of_argument {u : CodeUnit} {v : ValueId} (hv : v ∈ u.values)
    (harg : v ∈ u.arguments) : u.Writable v :=
  ⟨fun h => ⟨v, hv, h, rfl⟩, fun h => ⟨v, harg, h, rfl⟩⟩

/-! ### Room for registers -/

def totalWidth (u : CodeUnit) (vs : List ValueId) : Int :=
  (vs.map fun v => (u.pool.width v).toInt).sum

section Width

variable {u : CodeUnit} {v : ValueId} {vs : List ValueId}

@[simp] theorem totalWidth_nil : u.totalWidth [] = 0 := rfl

@[simp] theorem totalWidth_cons :
    u.totalWidth (v :: vs) = (u.pool.width v).toInt + u.totalWidth vs := by
  simp [totalWidth]

theorem totalWidth_nonneg : 0 ≤ u.totalWidth vs := by
  induction vs with
  | nil => simp
  | cons v vs ih =>
    have hwidth := u.pool.toInt_width v
    rw [totalWidth_cons]
    omega

/-- Values take two slots each at most. -/
theorem totalWidth_le : u.totalWidth vs ≤ 2 * vs.length := by
  induction vs with
  | nil => simp
  | cons v vs ih =>
    have hwidth := u.pool.toInt_width v
    rw [totalWidth_cons, List.length_cons]
    omega

/-- Where a row goes on after its first value. -/
theorem toInt_add_width {register : Register} (hnonneg : 0 ≤ register.toInt)
    (hbound : register.toInt + u.totalWidth (v :: vs) < 2 ^ 63) :
    (register + u.pool.width v).toInt = register.toInt + (u.pool.width v).toInt := by
  have hwidth := u.pool.toInt_width v
  have hrest : 0 ≤ u.totalWidth vs := totalWidth_nonneg
  rw [totalWidth_cons] at hbound
  exact Register.toInt_add hnonneg (by omega) (by omega)

end Width

/-- The values that a range needs in a row. -/
def rangeInputs (u : CodeUnit) (i : InstrId) : List ValueId :=
  if (u.instr i).opcode = .invokeRange then (u.instr i).inputs else []

/-- An instruction that is no range has no inputs in a row. -/
theorem rangeInputs_eq_nil {u : CodeUnit} {i : InstrId}
    (h : ¬ ((u.instr i).opcode = .invokeRange ∧ (u.instr i).inputs ≠ [])) :
    u.rangeInputs i = [] := by
  rw [rangeInputs, ite_eq_right_iff]
  exact fun hinvoke => by_contra fun hne => h ⟨hinvoke, hne⟩

/-- Register numbers do not run out: rows end before they do, and so do the allocatable
registers. -/
structure NoWrap (u : CodeUnit) (config : Config) : Prop where
  arguments : u.totalWidth u.arguments < 2 ^ 63
  ranges : ∀ i ∈ u.instrs, u.totalWidth (u.rangeInputs i) < 2 ^ 63
  registers : config.registers < Int64.maxValue

instance (u : CodeUnit) (config : Config) : Decidable (u.NoWrap config) :=
  decidable_of_iff
    (u.totalWidth u.arguments < 2 ^ 63 ∧ (∀ i ∈ u.instrs, u.totalWidth (u.rangeInputs i) < 2 ^ 63) ∧
      config.registers < Int64.maxValue)
    ⟨fun ⟨harguments, hranges, hregisters⟩ => ⟨harguments, hranges, hregisters⟩,
      fun h => ⟨h.arguments, h.ranges, h.registers⟩⟩

/-- There is a piece for every argument, and there are at most three for every value. -/
def maxPieces (u : CodeUnit) : Nat := u.arguments.length + 3 * u.values.length

/-- How far up a search for registers can get. A piece is in the way of a row of values at few
bases, and in the way of one value at three registers, among the allocatable ones and again in the
spill area. -/
def reach (u : CodeUnit) : Nat :=
  u.maxPieces * (2 * u.values.length + 1) + 6 * u.maxPieces + 4

/-- Register numbers do not run out: no search gets that far, or the rows end before they do, and so
do the allocatable registers and the spill area. -/
def NeverWraps (u : CodeUnit) (config : Config) : Prop :=
  u.reach < 2 ^ 63 ∨
    u.NoWrap config ∧ MoveType.wide.Fits config.registers ∧ config.maxRegisters < Int64.maxValue

instance (u : CodeUnit) (config : Config) : Decidable (u.NeverWraps config) :=
  inferInstanceAs (Decidable (_ ∨ _))

/-- Units of any practical size are too small for register numbers to run out. -/
theorem neverWraps_of_length_lt {u : CodeUnit} {config : Config}
    (h : u.arguments.length + u.values.length < 2 ^ 30) : u.NeverWraps config := by
  have hpieces : u.maxPieces ≤ 3 * 2 ^ 30 := by rw [maxPieces]; omega
  have hbases : u.maxPieces * (2 * u.values.length + 1) ≤ 3 * 2 ^ 30 * 2 ^ 31 :=
    Nat.mul_le_mul hpieces (by omega)
  left
  rw [reach]
  omega

/-- The row of the arguments ends before registers do. -/
theorem NeverWraps.totalWidth_arguments_lt {u : CodeUnit} {config : Config}
    (h : u.NeverWraps config) : u.totalWidth u.arguments < 2 ^ 63 := by
  obtain hfew | ⟨hwrap, -⟩ := h
  · have hwidth : u.totalWidth u.arguments ≤ _ := totalWidth_le
    rw [reach, maxPieces] at hfew
    omega
  · exact hwrap.arguments

/-- A unit whose parts belong together, as units do that are built step by step, and for which
register numbers do not run out. -/
structure WellFormed (u : CodeUnit) (config : Config) : Prop where
  nodup : u.values.Nodup
  arguments : ∀ v ∈ u.arguments, v ∈ u.values
  inputs : ∀ i ∈ u.instrs, ∀ v ∈ (u.instr i).inputs, v ∈ u.values
  uses : ∀ i ∈ u.instrs, ∀ v ∈ (u.instr i).inputs, i ∈ (u.value v).uses
  pinned : ∀ v ∈ u.values, ∀ register ∈ (u.value v).fixed, (u.value v).type.Fits register
  neverWraps : u.NeverWraps config

instance (u : CodeUnit) (config : Config) : Decidable (u.WellFormed config) :=
  let _ (v : ValueId) :
      Decidable (∀ register ∈ (u.value v).fixed, (u.value v).type.Fits register) :=
    Option.decidableForallMem _
  decidable_of_iff
    (u.values.Nodup ∧ (∀ v ∈ u.arguments, v ∈ u.values) ∧
      (∀ i ∈ u.instrs, ∀ v ∈ (u.instr i).inputs, v ∈ u.values ∧ i ∈ (u.value v).uses) ∧
      (∀ v ∈ u.values, ∀ register ∈ (u.value v).fixed, (u.value v).type.Fits register) ∧
      u.NeverWraps config)
    ⟨fun ⟨hnodup, harguments, hinputs, hpinned, hwraps⟩ => ⟨hnodup, harguments,
        fun i hi v hv => (hinputs i hi v hv).1, fun i hi v hv => (hinputs i hi v hv).2,
        hpinned, hwraps⟩,
      fun h => ⟨h.nodup, h.arguments, fun i hi v hv => ⟨h.inputs i hi v hv, h.uses i hi v hv⟩,
        h.pinned, h.neverWraps⟩⟩

/-! ### Pieces with fixed registers -/

/-- The piece of a value that keeps one register over its whole interval. -/
def whole (u : CodeUnit) (v : ValueId) (register : Register) : Piece :=
  ⟨v, (u.value v).start, (u.value v).stop, register⟩

/-- The pieces of values in consecutive registers from `register` on. -/
def row (u : CodeUnit) (register : Register) : List ValueId → List Piece
  | [] => []
  | v :: vs => u.whole v register :: u.row (register + u.pool.width v) vs

/-- The pieces of a row belong to its values. -/
@[simp] theorem map_value_row (u : CodeUnit) (register : Register) (vs : List ValueId) :
    (u.row register vs).map (·.value) = vs := by
  induction vs generalizing register with
  | nil => rfl
  | cons v vs ih => simp [row, whole, ih]

/-- A value has to be in a register of its own choice: it is no argument, and needs a register. -/
structure IsPinned (u : CodeUnit) (v : ValueId) (register : Register) : Prop where
  isArgument : (u.value v).isArgument = false
  fixed : (u.value v).fixed = some register
  needs : u.pool.needsRegister v = .ok true

end CodeUnit

/-- The check of intervals succeeds if every value that needs a register has one. -/
theorem Allocation.checkIntervals_iff {u : CodeUnit} {vs : List ValueId} :
    checkIntervals u vs = .ok () ↔ ∀ v ∈ vs, (∃ needs, u.pool.needsRegister v = .ok needs) ∧
      (u.pool.needsRegister v = .ok true → (u.value v).hasInterval = true) := by
  induction vs with
  | nil => simp [checkIntervals]
  | cons v vs ih =>
    rw [checkIntervals, List.forall_mem_cons, ← ih]
    cases hneeds : u.pool.needsRegister v with
    | error fault => simp [Failure.lift, Except.mapError, bind, Except.bind]
    | ok needs =>
      have hstep : (Failure.lift (.ok needs) : Except Failure Bool) = .ok needs := rfl
      rw [hstep]
      by_cases hmissing : needs = true ∧ (u.value v).hasInterval = false
      · simp [bind, Except.bind, hmissing]
      · simp only [bind, Except.bind, if_neg hmissing]
        simp_all

/-- Only constants can do without a register. -/
theorem Pool.exists_constant {pool : Pool} {v : ValueId} (h : pool.needsRegister v = .ok false) :
    ∃ constant, pool.constant? v = some constant := by
  rw [needsRegister] at h
  split at h
  · next hconstant => exact Option.isSome_iff_exists.mp hconstant
  · cases h

/-- One input that is needed in a register is enough. -/
theorem eq_true_of_anyM {α : Type} {p : α → Except Fault Bool} {xs : List α} {x : α} {any : Bool}
    (h : xs.anyM p = .ok any) (hx : x ∈ xs) (hp : p x = .ok true) : any = true := by
  induction xs with
  | nil => simp at hx
  | cons y ys ih =>
    rw [List.anyM] at h
    obtain ⟨found, hfound, h⟩ := bind_eq_ok h
    cases found with
    | true =>
      cases h
      rfl
    | false =>
      obtain rfl | hx := List.mem_cons.mp hx
      · rw [hp] at hfound
        cases hfound
      · exact ih h hx

/-- The inputs of an `invoke-range` are needed in registers. -/
theorem Pool.needsRegister_of_range {pool : Pool} {i : InstrId} {v : ValueId} {needs : Bool}
    (hi : (pool.instr i).opcode = .invokeRange) (huses : i ∈ (pool.value v).uses)
    (h : pool.needsRegister v = .ok needs) : needs = true := by
  rw [Pool.needsRegister] at h
  by_cases hconstant : pool.isConstant v = true
  · rw [if_pos hconstant] at h
    refine eq_true_of_anyM h huses ?_
    simp [Pool.needsInRegister, hi, Opcode.isBinop]
  · rw [if_neg hconstant] at h
    cases h
    rfl

namespace Reserved

variable {u : CodeUnit} {config : Config} {reserved placed : Reserved}

/-- What holds of the values placed so far. -/
structure Sound (u : CodeUnit) (reserved : Reserved) : Prop where
  whole : ∀ piece ∈ reserved.pieces, piece.Whole u.pool
  fits : ∀ piece ∈ reserved.pieces, piece.Fits u.pool
  apart : reserved.pieces.Pairwise (Piece.Apart u.pool)
  ordered : ∀ slot, LiveRange.Ordered (reserved.rangeAt slot).intervals
  within : ∀ slot, ∀ interval ∈ (reserved.rangeAt slot).intervals,
    interval.Within u.EndsAt u.FlipsAt
  /-- The positions of a slot are written down. -/
  complete : ∀ piece ∈ reserved.pieces, ∀ slot, piece.usesSlot u.pool slot = true →
    ∀ position, piece.covers position = true → position ∈ reserved.rangeAt slot
  /-- Only slots that are in use have positions. -/
  used : ∀ slot, reserved.rangeAt slot ≠ .empty →
    ∃ piece ∈ reserved.pieces, piece.usesSlot u.pool slot = true

theorem sound_empty (u : CodeUnit) : Sound u {} :=
  ⟨by simp, by simp, .nil, fun _ => .nil, by simp [rangeAt, LiveRange.empty], by simp,
    by simp [rangeAt]⟩

/-- A slot that is taken at some of the positions is in use. -/
theorem Sound.exists_of_conflicts (h : reserved.Sound u) {slot : Register} {live : LiveRange}
    (hconflicts : (reserved.rangeAt slot).conflicts live = true) :
    ∃ piece ∈ reserved.pieces, piece.usesSlot u.pool slot = true := by
  refine h.used slot fun hempty => ?_
  simp [hempty, LiveRange.conflicts, LiveRange.empty, LiveRange.meet] at hconflicts

/-- A piece that is free of what is written down is apart from all pieces placed before. -/
theorem Sound.apart_of_free (h : reserved.Sound u) {piece : Piece}
    (hfree : ∀ slot, piece.usesSlot u.pool slot = true →
      (reserved.rangeAt slot).conflicts (.single piece.start piece.stop) = false)
    {other : Piece} (hother : other ∈ reserved.pieces) : other.Apart u.pool piece := by
  intro position slot hcovers hcovers' huses
  by_contra huses'
  have hslot : piece.usesSlot u.pool slot = true := by simpa using huses'
  have hmem := h.complete other hother slot huses position hcovers
  exact LiveRange.not_mem_of_conflicts_eq_false (h.ordered slot) (hfree slot hslot) hmem
    (Piece.covers_iff.mp hcovers')

/-! ## One value -/

/-- Taking slots adds the positions of a value to each of them. -/
theorem takeSlots_spec {v : ValueId} {slots : List Register}
    {ranges taken : List (Register × LiveRange)} (hnodup : slots.Nodup)
    (h : takeSlots u v ranges slots = .ok taken) :
    (∀ slot ∈ slots, ((ranges.lookup slot).getD .empty).union (liveRange u v) =
      .ok ((taken.lookup slot).getD .empty)) ∧
    ∀ slot, slot ∉ slots → taken.lookup slot = ranges.lookup slot := by
  induction slots generalizing ranges with
  | nil =>
    cases h
    simp
  | cons first rest ih =>
    rw [takeSlots] at h
    obtain ⟨range, hunion, h⟩ := bind_eq_ok h
    obtain ⟨hfirst, hrest⟩ := List.nodup_cons.mp hnodup
    obtain ⟨htaken, hkept⟩ := ih hrest h
    have hlookup : ∀ slot, slot ≠ first →
        ((first, range) :: ranges).lookup slot = ranges.lookup slot := by
      intro slot hne
      rw [List.lookup_cons, beq_false_of_ne hne]
    constructor
    · intro slot hslot
      obtain rfl | hslot := List.mem_cons.mp hslot
      · simpa [hkept slot hfirst] using hunion
      · rw [← htaken slot hslot, hlookup slot (fun heq => hfirst (heq ▸ hslot))]
    · intro slot hslot
      rw [hkept slot (fun h => hslot (List.mem_cons_of_mem _ h)),
        hlookup slot (fun heq => hslot (heq ▸ List.mem_cons_self))]

/-- What the placing of a value does. -/
theorem place_spec {v : ValueId} {register : Register}
    (h : reserved.place u config v register = .ok placed) :
    0 ≤ register ∧
      placed.pieces = reserved.pieces ++ [⟨v, (u.value v).start, (u.value v).stop, register⟩] ∧
      (∀ slot ∈ (u.value v).type.span register,
        (reserved.rangeAt slot).union (liveRange u v) = .ok (placed.rangeAt slot)) ∧
      ∀ slot ∉ (u.value v).type.span register, placed.rangeAt slot = reserved.rangeAt slot := by
  rw [place] at h
  by_cases hbad : register < 0 ∨ config.maxRegisters < register + (u.value v).type.width
  · rw [if_pos hbad] at h
    cases h
  rw [if_neg hbad] at h
  obtain ⟨-, -, h⟩ := bind_eq_ok h
  obtain ⟨ranges, htake, h⟩ := bind_eq_ok h
  cases h
  obtain ⟨htaken, hkept⟩ := takeSlots_spec (MoveType.nodup_span _ _) (Failure.lift_eq_ok htake)
  refine ⟨by grind, rfl, htaken, fun slot hslot => ?_⟩
  rw [rangeAt, rangeAt, hkept slot hslot]

/-- Placing a value keeps the record sound. -/
theorem Sound.place (hsound : reserved.Sound u) (hends : ∀ p, u.EndsAt p → ¬ u.FlipsAt p)
    {v : ValueId} {register : Register} (hv : u.Writable v)
    (hfits : (u.value v).type.Fits register)
    (h : reserved.place u config v register = .ok placed) : placed.Sound u := by
  obtain ⟨hnonneg, hpieces, htaken, hkept⟩ := place_spec h
  have hlive : ∀ interval ∈ (liveRange u v).intervals, interval.Within u.EndsAt u.FlipsAt := by
    intro interval hinterval
    rw [List.mem_singleton.mp hinterval]
    exact hv
  have hunion : ∀ slot ∈ (u.value v).type.span register, _ := fun slot hslot =>
    LiveRange.union_spec hends (hsound.ordered slot) (List.pairwise_singleton _ _)
      (hsound.within slot) hlive (htaken slot hslot)
  have hspan : ∀ slot, slot ∈ (u.value v).type.span register ↔
      (⟨v, (u.value v).start, (u.value v).stop, register⟩ : Piece).usesSlot u.pool slot = true := by
    intro slot
    rw [Piece.usesSlot_iff_mem_span]
    rfl
  constructor
  · simp only [hpieces, List.mem_append, List.mem_singleton]
    rintro piece (hpiece | rfl)
    · exact hsound.whole piece hpiece
    · exact ⟨rfl, rfl⟩
  · simp only [hpieces, List.mem_append, List.mem_singleton]
    rintro piece (hpiece | rfl)
    · exact hsound.fits piece hpiece
    · exact ⟨hnonneg, hfits⟩
  · rw [hpieces, List.pairwise_append]
    refine ⟨hsound.apart, List.pairwise_singleton _ _, fun other hother piece hpiece => ?_⟩
    rw [List.mem_singleton.mp hpiece]
    exact hsound.apart_of_free (fun slot hslot => (hunion slot ((hspan slot).mpr hslot)).2.2.2)
      hother
  · intro slot
    by_cases hslot : slot ∈ (u.value v).type.span register
    · exact (hunion slot hslot).1
    · rw [hkept slot hslot]
      exact hsound.ordered slot
  · intro slot
    by_cases hslot : slot ∈ (u.value v).type.span register
    · exact (hunion slot hslot).2.1
    · rw [hkept slot hslot]
      exact hsound.within slot
  · simp only [hpieces, List.mem_append, List.mem_singleton]
    intro piece hpiece slot huses position hcovers
    by_cases hslot : slot ∈ (u.value v).type.span register
    · apply (hunion slot hslot).2.2.1
      obtain hpiece | rfl := hpiece
      · exact .inl (hsound.complete piece hpiece slot huses position hcovers)
      · rw [Piece.covers_iff] at hcovers
        exact .inr (LiveRange.mem_single.mpr hcovers)
    · rw [hkept slot hslot]
      obtain hpiece | rfl := hpiece
      · exact hsound.complete piece hpiece slot huses position hcovers
      · exact absurd ((hspan slot).mpr huses) hslot
  · intro slot hne
    rw [hpieces]
    by_cases hslot : slot ∈ (u.value v).type.span register
    · exact ⟨_, List.mem_concat_self, (hspan slot).mp hslot⟩
    · rw [hkept slot hslot] at hne
      obtain ⟨piece, hpiece, huses⟩ := hsound.used slot hne
      exact ⟨piece, List.mem_append_left _ hpiece, huses⟩

/-! ## Values in a row -/

/-- The pieces of a row come after those before. -/
theorem pieces_placeRow {vs : List ValueId} {register : Register}
    (h : placeRow u config reserved register vs = .ok placed) :
    placed.pieces = reserved.pieces ++ u.row register vs := by
  induction vs generalizing reserved register with
  | nil =>
    cases h
    simp [CodeUnit.row]
  | cons v vs ih =>
    obtain ⟨next, hplace, h⟩ := bind_eq_ok h
    rw [ih h, (place_spec hplace).2.1]
    simp [CodeUnit.row, CodeUnit.whole]

theorem values_placeRow {vs : List ValueId} {register : Register}
    (h : placeRow u config reserved register vs = .ok placed) :
    placed.pieces.map (·.value) = reserved.pieces.map (·.value) ++ vs := by
  simp [pieces_placeRow h]

/-- Values in a row are placed one after another, each with room for it. -/
theorem Sound.placeRow (hends : ∀ p, u.EndsAt p → ¬ u.FlipsAt p) {vs : List ValueId}
    {register : Register} (hsound : reserved.Sound u) (hvs : ∀ v ∈ vs, u.Writable v)
    (hnonneg : 0 ≤ register.toInt) (hbound : register.toInt + u.totalWidth vs < 2 ^ 63)
    (h : placeRow u config reserved register vs = .ok placed) : placed.Sound u := by
  induction vs generalizing reserved register with
  | nil =>
    cases h
    exact hsound
  | cons v vs ih =>
    rw [Reserved.placeRow] at h
    obtain ⟨next, hplace, h⟩ := bind_eq_ok h
    have hadd := CodeUnit.toInt_add_width hnonneg hbound
    have hwidth := u.pool.toInt_width v
    rw [CodeUnit.totalWidth_cons] at hbound
    have hfits : (u.value v).type.Fits register := by
      have hend : (register + (u.value v).type.width).toInt = _ := hadd
      rw [MoveType.Fits, Int64.lt_iff_toInt_lt, hend]
      omega
    have hnext := hsound.place hends (hvs v List.mem_cons_self) hfits hplace
    exact ih hnext (fun w hw => hvs w (List.mem_cons_of_mem _ hw)) (by omega) (by omega) h

/-- Arguments are values in a row. -/
theorem placeRow_of_placeArguments {vs : List ValueId} {register : Register}
    (h : placeArguments u config reserved register vs = .ok placed) :
    Reserved.placeRow u config reserved register vs = .ok placed := by
  induction vs generalizing reserved register with
  | nil => exact h
  | cons v vs ih =>
    have hstep : (do
        let next ← reserved.place u config v register
        placeArguments u config next (register + u.pool.width v) vs) = .ok placed := by
      rw [placeArguments] at h
      cases hfixed : (u.value v).fixed with
      | none => simpa only [hfixed] using h
      | some fixed =>
        simp only [hfixed] at h
        by_cases hne : fixed ≠ register
        · rw [if_pos hne] at h
          cases h
        · rwa [if_neg hne] at h
    obtain ⟨next, hplace, h⟩ := bind_eq_ok hstep
    rw [Reserved.placeRow, hplace]
    exact ih h

/-! ## Pinned values -/

/-- A value that is not pinned is passed over. -/
theorem placePinned_cons {v : ValueId} {vs : List ValueId}
    (h : placePinned u config reserved (v :: vs) = .ok placed) :
    (∀ register, ¬ u.IsPinned v register) ∧ placePinned u config reserved vs = .ok placed ∨
      ∃ register next, u.IsPinned v register ∧
        reserved.place u config v register = .ok next ∧
        placePinned u config next vs = .ok placed := by
  rw [placePinned] at h
  cases hargument : (u.value v).isArgument with
  | true =>
    refine .inl ⟨fun register hpinned => ?_, by simpa only [hargument] using h⟩
    simp [hpinned.isArgument] at hargument
  | false =>
    cases hfixed : (u.value v).fixed with
    | none =>
      refine .inl ⟨fun register hpinned => ?_, by simpa only [hargument, hfixed] using h⟩
      simp [hpinned.fixed] at hfixed
    | some register =>
      simp only [hargument, hfixed] at h
      obtain ⟨needs, hneeds, h⟩ := bind_eq_ok h
      have hneeds := Failure.lift_eq_ok hneeds
      cases needs with
      | false =>
        refine .inl ⟨fun register hpinned => ?_, by simpa using h⟩
        simp [hpinned.needs] at hneeds
      | true =>
        simp only [if_true] at h
        obtain ⟨next, hplace, h⟩ := bind_eq_ok h
        exact .inr ⟨register, next, ⟨hargument, hfixed, hneeds⟩, hplace, h⟩

/-- The values that are pinned are placed in their registers. -/
theorem placePinned_spec {vs : List ValueId} (h : placePinned u config reserved vs = .ok placed) :
    ∃ pinned, placed.pieces = reserved.pieces ++ pinned ∧ (pinned.map (·.value)).Sublist vs ∧
      ∀ piece, piece ∈ pinned ↔
        ∃ v ∈ vs, ∃ register, u.IsPinned v register ∧ piece = u.whole v register := by
  induction vs generalizing reserved with
  | nil =>
    cases h
    exact ⟨[], by simp, by simp, by simp⟩
  | cons v vs ih =>
    obtain ⟨hfree, h⟩ | ⟨register, next, hpinned, hplace, h⟩ := placePinned_cons h
    · obtain ⟨pinned, hpieces, hsub, hmem⟩ := ih h
      exact ⟨pinned, hpieces, hsub.cons v, fun piece => by simp [hmem, hfree]⟩
    · obtain ⟨pinned, hpieces, hsub, hmem⟩ := ih h
      refine ⟨u.whole v register :: pinned, ?_, hsub.cons_cons v, fun piece => ?_⟩
      · rw [hpieces, (place_spec hplace).2.1]
        simp [CodeUnit.whole]
      · have hown : (∃ register', u.IsPinned v register' ∧ piece = u.whole v register') ↔
            piece = u.whole v register := by
          constructor
          · rintro ⟨register', hpinned', rfl⟩
            rw [Option.some.inj (hpinned'.fixed.symm.trans hpinned.fixed)]
          · exact fun heq => ⟨register, hpinned, heq⟩
        simp only [List.mem_cons, exists_eq_or_imp, hown, hmem]

/-- Placing pinned values keeps the record sound. -/
theorem Sound.placePinned (hends : ∀ p, u.EndsAt p → ¬ u.FlipsAt p) {vs : List ValueId}
    (hsound : reserved.Sound u)
    (hvs : ∀ v ∈ vs, u.pool.needsRegister v = .ok true → u.Writable v)
    (hfits : ∀ v ∈ vs, ∀ register ∈ (u.value v).fixed, (u.value v).type.Fits register)
    (h : placePinned u config reserved vs = .ok placed) : placed.Sound u := by
  induction vs generalizing reserved with
  | nil =>
    cases h
    exact hsound
  | cons v vs ih =>
    obtain ⟨hv, hvs⟩ := List.forall_mem_cons.mp hvs
    obtain ⟨hfit, hfits⟩ := List.forall_mem_cons.mp hfits
    obtain ⟨-, h⟩ | ⟨register, next, hpinned, hplace, h⟩ := placePinned_cons h
    · exact ih hsound hvs hfits h
    · have hnext := hsound.place hends (hv hpinned.needs) (hfit register hpinned.fixed) hplace
      exact ih hnext hvs hfits h

/-! ## Ranges -/

/-- A register from which a value would take a slot that a piece uses is near that piece. -/
theorem exists_near_of_usesSlot {type : MoveType} {register slot : Register} {piece : Piece}
    (hslot : slot ∈ type.span register) (huses : piece.usesSlot u.pool slot = true) :
    ∃ k < 3, register = piece.register + 1 - Int64.ofNat k := by
  rw [MoveType.mem_span] at hslot
  rw [Piece.usesSlot_iff] at huses
  have hwidth := type.one_le_width
  have hwidth' := (u.pool.value piece.value).type.one_le_width
  rw [Pool.width] at huses
  have hnear : register = piece.register + 1 - Int64.ofNat 0 ∨
      register = piece.register + 1 - Int64.ofNat 1 ∨
      register = piece.register + 1 - Int64.ofNat 2 := by
    have h0 : Int64.ofNat 0 = 0 := rfl
    have h1 : Int64.ofNat 1 = 1 := rfl
    have h2 : Int64.ofNat 2 = 2 := rfl
    rw [h0, h1, h2]
    grind
  obtain h | h | h := hnear
  · exact ⟨0, by omega, h⟩
  · exact ⟨1, by omega, h⟩
  · exact ⟨2, by omega, h⟩

/-- Few pieces are near few registers only. -/
theorem sub_le_of_near {low high : Register} {pieces : List Piece} {count : Nat}
    (h : ∀ register, low ≤ register → register < high →
      ∃ piece ∈ pieces, ∃ k < count, register = piece.register + 1 - Int64.ofNat k) :
    high.toInt - low.toInt ≤ pieces.length * count := by
  have hle : high.toInt - low.toInt ≤ (pieces.flatMap fun piece =>
      (List.range count).map fun k => piece.register + 1 - Int64.ofNat k).length := by
    refine Register.sub_le_length fun register hlow hhigh => ?_
    obtain ⟨piece, hpiece, k, hk, heq⟩ := h register hlow hhigh
    simp only [List.mem_flatMap, List.mem_map, List.mem_range]
    exact ⟨piece, hpiece, k, hk, heq.symm⟩
  simpa [List.length_flatMap] using hle

/-- Values that do not fit in a row have a piece near them. -/
theorem Sound.exists_near_of_fitsAt (hsound : reserved.Sound u) {vs : List ValueId}
    {register : Register} (h : reserved.fitsAt u register vs = false) :
    ∃ piece ∈ reserved.pieces, ∃ k < 2 * vs.length + 1,
      register = piece.register + 1 - Int64.ofNat k := by
  induction vs generalizing register with
  | nil => simp [fitsAt] at h
  | cons v vs ih =>
    rw [fitsAt, Bool.and_eq_false_iff] at h
    obtain hfirst | hrest := h
    · obtain ⟨slot, hslot, hconflicts⟩ := List.all_eq_false.mp hfirst
      obtain ⟨piece, hpiece, huses⟩ := hsound.exists_of_conflicts (by simpa using hconflicts)
      obtain ⟨k, hk, heq⟩ := exists_near_of_usesSlot hslot huses
      exact ⟨piece, hpiece, k, by rw [List.length_cons]; omega, heq⟩
    · obtain ⟨piece, hpiece, k, hk, heq⟩ := ih hrest
      have hwidth : u.pool.width v = Int64.ofNat 1 ∨ u.pool.width v = Int64.ofNat 2 := by
        rw [Pool.width]
        cases (u.pool.value v).type <;> decide
      obtain hwidth | hwidth := hwidth
      · refine ⟨piece, hpiece, k + 1, by rw [List.length_cons]; omega, ?_⟩
        rw [hwidth] at heq
        rw [Int64.ofNat_add]
        grind
      · refine ⟨piece, hpiece, k + 2, by rw [List.length_cons]; omega, ?_⟩
        rw [hwidth] at heq
        rw [Int64.ofNat_add]
        grind

/-- An input of a range is new and has no register yet. -/
theorem checkRange_cons {i : InstrId} {seen : List (ValueId × InstrId)} {width : Int64}
    {v : ValueId} {vs : List ValueId} {checked : List (ValueId × InstrId) × Int64}
    (h : checkRange u i seen width (v :: vs) = .ok checked) :
    seen.lookup v = none ∧ (u.value v).isArgument = false ∧ (u.value v).fixed = none ∧
      checkRange u i ((v, i) :: seen) (width + u.pool.width v) vs = .ok checked := by
  rw [checkRange] at h
  cases hlookup : seen.lookup v with
  | some other =>
    simp only [hlookup] at h
    by_cases heq : other = i
    · rw [if_pos heq] at h
      cases h
    · rw [if_neg heq] at h
      cases h
  | none =>
    simp only [hlookup] at h
    by_cases hfixed : (u.value v).isArgument = true ∨ (u.value v).fixed.isSome = true
    · rw [if_pos hfixed] at h
      cases h
    rw [if_neg hfixed] at h
    obtain ⟨hargument, hfixed⟩ := not_or.mp hfixed
    exact ⟨rfl, by simpa using hargument, by simpa using hfixed, h⟩

/-- The inputs of ranges are all different. -/
theorem checkRange_spec {i : InstrId} {seen seen' : List (ValueId × InstrId)}
    {width width' : Int64} {vs : List ValueId} (hnodup : (seen.map Prod.fst).Nodup)
    (h : checkRange u i seen width vs = .ok (seen', width')) :
    (seen'.map Prod.fst).Nodup ∧ seen'.map Prod.fst = vs.reverse ++ seen.map Prod.fst := by
  induction vs generalizing seen width with
  | nil =>
    cases h
    exact ⟨hnodup, by simp⟩
  | cons v vs ih =>
    obtain ⟨hlookup, -, -, h⟩ := checkRange_cons h
    have hv : v ∉ seen.map Prod.fst := by
      intro hmem
      obtain ⟨entry, hentry, heq⟩ := List.mem_map.mp hmem
      have hne := List.lookup_eq_none_iff.mp hlookup entry hentry
      simp [heq] at hne
    have hcons : (((v, i) :: seen).map Prod.fst).Nodup := List.nodup_cons.mpr ⟨hv, hnodup⟩
    obtain ⟨hnodup', hseen⟩ := ih hcons h
    exact ⟨hnodup', by simp [hseen]⟩

/-- An instruction that is no range is passed over; the inputs of a range are checked, and placed
from the base that is found. -/
theorem placeRanges_cons {i : InstrId} {is : List InstrId} {seen : List (ValueId × InstrId)}
    (h : placeRanges u config reserved seen (i :: is) = .ok placed) :
    ¬ ((u.instr i).opcode = .invokeRange ∧ (u.instr i).inputs ≠ []) ∧
        placeRanges u config reserved seen is = .ok placed ∨
      (u.instr i).opcode = .invokeRange ∧ ∃ seen' width base next,
        checkRange u i seen 0 (u.instr i).inputs = .ok (seen', width) ∧
        reserved.rangeBase? u config (u.instr i).inputs width = some base ∧
        Reserved.placeRow u config reserved base (u.instr i).inputs = .ok next ∧
        placeRanges u config next seen' is = .ok placed := by
  rw [placeRanges] at h
  by_cases hinvoke : (u.instr i).opcode = .invokeRange ∧ (u.instr i).inputs ≠ []
  · rw [if_pos hinvoke] at h
    obtain ⟨⟨seen', width⟩, hcheck, h⟩ := bind_eq_ok h
    by_cases hwide : config.registers < width
    · simp only [if_pos hwide] at h
      cases h
    simp only [if_neg hwide] at h
    cases hbase : reserved.rangeBase? u config (u.instr i).inputs width with
    | none => simp [hbase] at h
    | some base =>
      simp only [hbase] at h
      obtain ⟨next, hrow, h⟩ := bind_eq_ok h
      exact .inr ⟨hinvoke.1, seen', width, base, next, hcheck, hbase, hrow, h⟩
  · rw [if_neg hinvoke] at h
    exact .inl ⟨hinvoke, h⟩

/-- The width of a range is that of its inputs, unless it wraps around. -/
theorem width_of_checkRange {vs : List ValueId} {i : InstrId}
    {seen seen' : List (ValueId × InstrId)}
    {width width' : Int64} (hnonneg : 0 ≤ width.toInt)
    (hbound : width.toInt + u.totalWidth vs < 2 ^ 63)
    (h : checkRange u i seen width vs = .ok (seen', width')) :
    width'.toInt = width.toInt + u.totalWidth vs := by
  induction vs generalizing seen width with
  | nil =>
    cases h
    simp
  | cons v vs ih =>
    obtain ⟨-, -, -, h⟩ := checkRange_cons h
    have hadd := CodeUnit.toInt_add_width hnonneg hbound
    have hwidth := u.pool.toInt_width v
    rw [CodeUnit.totalWidth_cons] at hbound ⊢
    rw [ih (by omega) (by omega) h, hadd]
    omega

/-- The base that is found leaves room for the whole row, and none below it is free. -/
theorem rangeBase?_spec {vs : List ValueId} {width : Int64} {base : Register}
    (hregisters : config.registers < Int64.maxValue) (hwidth : 0 ≤ width.toInt)
    (h : reserved.rangeBase? u config vs width = some base) :
    0 ≤ base.toInt ∧ base.toInt + width.toInt ≤ config.registers.toInt ∧
      reserved.fitsAt u base vs = true ∧
      ∀ other : Register, 0 ≤ other → other < base → reserved.fitsAt u other vs = false := by
  obtain ⟨hnonneg, hin, hfits, hpassed⟩ := Register.leastFrom?_eq_some h
  rw [Int64.le_iff_toInt_le, Int64.toInt_zero] at hnonneg
  have hlt := Register.toInt_add_lt_of_leastFrom? (by simp) hwidth
    (by simpa using Int64.toInt_lt width) hregisters h
  rw [decide_eq_true_iff, Int64.le_iff_toInt_le, Register.toInt_add hnonneg hwidth hlt] at hin
  exact ⟨hnonneg, hin, hfits, hpassed⟩

/-- The row of a range ends before registers do. -/
theorem Sound.range_end_lt (hu : u.WellFormed config) (hsound : reserved.Sound u) {i : InstrId}
    (hi : i ∈ u.instrs) (hinvoke : (u.instr i).opcode = .invokeRange)
    {seen seen' : List (ValueId × InstrId)} {width : Int64} {base : Register}
    (hcheck : checkRange u i seen 0 (u.instr i).inputs = .ok (seen', width))
    (hbase : reserved.rangeBase? u config (u.instr i).inputs width = some base)
    (hpieces : reserved.pieces.length ≤ u.maxPieces)
    (hinputs : (u.instr i).inputs.length ≤ u.values.length) :
    base.toInt + u.totalWidth (u.instr i).inputs < 2 ^ 63 := by
  obtain hfew | ⟨hwrap, -⟩ := hu.neverWraps
  · -- the pieces so far and the inputs are few, so that the row is not far up
    obtain ⟨-, -, -, hpassed⟩ := Register.leastFrom?_eq_some hbase
    have hnear := sub_le_of_near fun register hlow hhigh =>
      hsound.exists_near_of_fitsAt (hpassed register hlow hhigh)
    have hwidth : u.totalWidth (u.instr i).inputs ≤ _ := CodeUnit.totalWidth_le
    have hmax : u.maxPieces = u.arguments.length + 3 * u.values.length := rfl
    have hmul : reserved.pieces.length * (2 * (u.instr i).inputs.length + 1) ≤
        u.maxPieces * (2 * u.values.length + 1) := Nat.mul_le_mul hpieces (by omega)
    rw [CodeUnit.reach] at hfew
    rw [Int64.toInt_zero, ← Nat.cast_mul] at hnear
    omega
  · -- the base was found below the end of the allocatable registers
    have hrange : u.rangeInputs i = (u.instr i).inputs := if_pos hinvoke
    have hsmall := hwrap.ranges i hi
    rw [hrange] at hsmall
    have hwidth := width_of_checkRange (by simp) (by simpa using hsmall) hcheck
    rw [Int64.toInt_zero, Int.zero_add] at hwidth
    have hpos : 0 ≤ u.totalWidth (u.instr i).inputs := CodeUnit.totalWidth_nonneg
    obtain ⟨-, hhigh, -⟩ := rangeBase?_spec hwrap.registers (by omega) hbase
    have hlast := Int64.toInt_lt config.registers
    omega

/-- Placing ranges keeps the record sound and adds one piece at most for every value. -/
theorem Sound.placeRanges (hends : ∀ p, u.EndsAt p → ¬ u.FlipsAt p) (hu : u.WellFormed config)
    (hrange : ∀ i ∈ u.instrs, (u.instr i).opcode = .invokeRange → ∀ v ∈ (u.instr i).inputs,
      u.Writable v) {is : List InstrId} (his : ∀ i ∈ is, i ∈ u.instrs)
    {seen : List (ValueId × InstrId)} {before : Nat} (hsound : reserved.Sound u)
    (hseen : ∀ v ∈ seen.map Prod.fst, v ∈ u.values) (hnodup : (seen.map Prod.fst).Nodup)
    (hbefore : before ≤ u.arguments.length + u.values.length)
    (hlength : reserved.pieces.length = before + seen.length)
    (h : placeRanges u config reserved seen is = .ok placed) :
    placed.Sound u ∧ placed.pieces.length ≤ before + u.values.length ∧
      ∃ rows, placed.pieces.map (·.value) = reserved.pieces.map (·.value) ++ rows := by
  have hshort : ∀ {vs : List ValueId}, vs.Nodup → (∀ v ∈ vs, v ∈ u.values) →
      vs.length ≤ u.values.length := fun hnodup hsub =>
      (List.subperm_of_subset hnodup hsub).length_le
  induction is generalizing reserved seen with
  | nil =>
    cases h
    have := hshort hnodup hseen
    rw [List.length_map] at this
    exact ⟨hsound, by omega, [], by simp⟩
  | cons i is ih =>
    have his' := fun j hj => his j (List.mem_cons_of_mem i hj)
    have hi := his i List.mem_cons_self
    obtain ⟨-, h⟩ | ⟨hinvoke, seen', width, base, next, hcheck, hbase, hrow, h⟩ :=
      placeRanges_cons h
    · exact ih his' hsound hseen hnodup hlength h
    · obtain ⟨hnodup', hseen'⟩ := checkRange_spec hnodup hcheck
      have hall : ∀ v ∈ seen'.map Prod.fst, v ∈ u.values := by
        intro v hv
        rw [hseen', List.mem_append, List.mem_reverse] at hv
        exact hv.elim (hu.inputs i hi v) (hseen v)
      have hmany := hshort hnodup' hall
      rw [hseen', List.length_append, List.length_reverse, List.length_map] at hmany
      have hbound := hsound.range_end_lt hu hi hinvoke hcheck hbase
        (by rw [CodeUnit.maxPieces]; omega) (by omega)
      have hnonneg := (Register.leastFrom?_eq_some hbase).1
      rw [Int64.le_iff_toInt_le, Int64.toInt_zero] at hnonneg
      have hnext := hsound.placeRow hends (hrange i hi hinvoke) hnonneg hbound hrow
      have hvalues := values_placeRow hrow
      have hlength' : next.pieces.length = before + seen'.length := by
        have h1 := congrArg List.length hvalues
        have h2 := congrArg List.length hseen'
        simp only [List.length_map, List.length_append, List.length_reverse] at h1 h2
        omega
      obtain ⟨hplaced, hle, rows, hrows⟩ := ih his' hnext hall hnodup' hlength' h
      exact ⟨hplaced, hle, (u.instr i).inputs ++ rows,
        by rw [hrows, hvalues, List.append_assoc]⟩

/-- The values with fixed registers do not clash, and there are not many of them. -/
theorem sound_ofUnit (hends : ∀ p, u.EndsAt p → ¬ u.FlipsAt p) (hu : u.WellFormed config)
    (hintervals : Allocation.checkIntervals u u.values = .ok ())
    (h : ofUnit u config = .ok reserved) :
    reserved.Sound u ∧
      reserved.pieces.length ≤ u.arguments.length + 2 * u.values.length ∧
      ∀ v ∈ u.arguments, ∃ piece ∈ reserved.pieces, piece.value = v := by
  have hneeds := Allocation.checkIntervals_iff.mp hintervals
  have hwritable : ∀ v ∈ u.values, u.pool.needsRegister v = .ok true → u.Writable v :=
    fun v hv hneed => CodeUnit.writable_of_hasInterval hv ((hneeds v hv).2 hneed)
  rw [ofUnit] at h
  obtain ⟨arguments, harguments, h⟩ := bind_eq_ok h
  obtain ⟨pinned, hpinned, h⟩ := bind_eq_ok h
  have hrow := placeRow_of_placeArguments harguments
  have hvalues := values_placeRow hrow
  obtain ⟨rest, hpieces, hsub, -⟩ := placePinned_spec hpinned
  have hsound := (sound_empty u).placeRow hends
    (fun v hv => CodeUnit.writable_of_argument (hu.arguments v hv) hv) (by simp)
    (by simpa using hu.neverWraps.totalWidth_arguments_lt) hrow
  have hsound' := hsound.placePinned hends hwritable hu.pinned hpinned
  have hlength : pinned.pieces.length = u.arguments.length + rest.length := by
    have h1 := congrArg List.length hvalues
    have h2 := congrArg List.length hpieces
    simp only [List.length_map, List.length_append, List.length_nil] at h1 h2
    omega
  have hrange : ∀ i ∈ u.instrs, (u.instr i).opcode = .invokeRange → ∀ v ∈ (u.instr i).inputs,
      u.Writable v := by
    intro i hi hinvoke v hv
    have hmem := hu.inputs i hi v hv
    obtain ⟨needs, hneed⟩ := (hneeds v hmem).1
    rw [Pool.needsRegister_of_range hinvoke (hu.uses i hi v hv) hneed] at hneed
    exact hwritable v hmem hneed
  have hshort := hsub.length_le
  rw [List.length_map] at hshort
  have hstart : pinned.pieces.length =
      (u.arguments.length + rest.length) + ([] : List (ValueId × InstrId)).length := hlength
  obtain ⟨hplaced, hle, rows, hrows⟩ := hsound'.placeRanges hends hu hrange (fun i hi => hi)
    (by simp) (by simp) (by omega) hstart h
  have hall : reserved.pieces.map (·.value) = u.arguments ++ rest.map (·.value) ++ rows := by
    rw [hrows, hpieces, List.map_append, hvalues]
    simp
  refine ⟨hplaced, by omega, fun v hv => ?_⟩
  have hv : v ∈ reserved.pieces.map (·.value) := by
    rw [hall]
    exact List.mem_append_left _ (List.mem_append_left _ hv)
  obtain ⟨piece, hpiece, heq⟩ := List.mem_map.mp hv
  exact ⟨piece, hpiece, heq⟩

/-! ## The last piece of each value -/

theorem mem_of_mem_latest {pieces : List Piece} {piece : Piece} (h : piece ∈ latest pieces) :
    piece ∈ pieces := by
  fun_induction latest pieces with
  | case1 => exact h
  | case2 first rest hany ih => exact List.mem_cons_of_mem _ (ih h)
  | case3 first rest hany ih =>
    obtain rfl | h := List.mem_cons.mp h
    · exact List.mem_cons_self
    · exact List.mem_cons_of_mem _ (ih h)

/-- A value without pieces has no last one. -/
theorem ofValue_latest_eq_nil {pieces : List Piece} {v : ValueId}
    (h : ∀ piece ∈ pieces, piece.value ≠ v) : Piece.ofValue (latest pieces) v = [] := by
  rw [Piece.ofValue, List.filter_eq_nil_iff]
  intro piece hpiece
  simpa using h piece (mem_of_mem_latest hpiece)

/-- A value that has been placed has one piece that counts. -/
theorem ofValue_latest {pieces : List Piece} {v : ValueId} (h : ∃ piece ∈ pieces, piece.value = v) :
    ∃ last ∈ pieces, last.value = v ∧ Piece.ofValue (latest pieces) v = [last] := by
  fun_induction latest pieces with
  | case1 => simp at h
  | case2 first rest hany ih =>
    have hrest : ∃ piece ∈ rest, piece.value = v := by
      obtain ⟨piece, hpiece, rfl⟩ := h
      obtain rfl | hpiece := List.mem_cons.mp hpiece
      · simpa using hany
      · exact ⟨piece, hpiece, rfl⟩
    obtain ⟨last, hlast, hvalue, heq⟩ := ih hrest
    exact ⟨last, List.mem_cons_of_mem _ hlast, hvalue, heq⟩
  | case3 first rest hany ih =>
    by_cases hfirst : first.value = v
    · have hnil : Piece.ofValue (latest rest) v = [] := by
        refine ofValue_latest_eq_nil fun piece hpiece hv => hany ?_
        rw [List.any_eq_true]
        exact ⟨piece, hpiece, by simp [hv, hfirst]⟩
      refine ⟨first, List.mem_cons_self, hfirst, ?_⟩
      rw [Piece.ofValue] at hnil ⊢
      simp [hfirst, hnil]
    · have hrest : ∃ piece ∈ rest, piece.value = v := by
        obtain ⟨piece, hpiece, rfl⟩ := h
        obtain rfl | hpiece := List.mem_cons.mp hpiece
        · exact absurd rfl hfirst
        · exact ⟨piece, hpiece, rfl⟩
      obtain ⟨last, hlast, hvalue, heq⟩ := ih hrest
      refine ⟨last, List.mem_cons_of_mem _ hlast, hvalue, ?_⟩
      rw [Piece.ofValue] at heq ⊢
      simp [hfirst, heq]

end Reserved
end RegisterAllocation
