import RegisterAllocation.Proofs.FixedPlacement

/-!
# The table of fixed registers

What is fixed is written down twice: as pieces, and for every slot as the positions at which it is
taken. A value is placed by looking at its slots first and taking them one after another then.
`Reserved.attempt` follows these steps and keeps what has been written where they stop. It has the
result of `Reserved.place` (`Reserved.place_eq_attempt`), and when a value is refused nothing has
been written, since every slot that was found free can be taken.

So after any number of attempts the two agree (`Reserved.attemptAll_exact`): a slot is taken at a
position exactly if a piece holds it there, no two pieces hold it at once, and a value is refused
exactly if its register is out of bounds or a piece is in its way, which then is named.
-/

namespace RegisterAllocation

/-- Two pieces hold a slot at the same position. -/
def Piece.ShareAt (pool : Pool) (piece other : Piece) (slot : Register) : Prop :=
  piece.usesSlot pool slot = true ∧ other.usesSlot pool slot = true ∧
    ∃ position, piece.covers position = true ∧ other.covers position = true

/-- Two pieces are apart if and only if there is no slot that they share. -/
theorem Piece.apart_iff {pool : Pool} {piece other : Piece} :
    piece.Apart pool other ↔ ∀ slot, ¬ piece.ShareAt pool other slot := by
  simp only [Apart, ShareAt, ← Bool.not_eq_true]
  grind

theorem MoveType.pairwise_span (type : MoveType) (register : Register) :
    (type.span register).Pairwise (· < ·) := by
  cases type <;> grind [span, footprint, width]

namespace Reserved

variable {u : CodeUnit} {config : Config} {reserved placed : Reserved} {v : ValueId}
  {register slot : Register}

/-! ## Placing step by step -/

/-- Takes slots one after another while `v` is live. Where one cannot be taken, those before it stay
taken. -/
def takeEach (u : CodeUnit) (v : ValueId) (ranges : List (Register × LiveRange)) :
    List Register → List (Register × LiveRange) × Option Fault
  | [] => (ranges, none)
  | slot :: slots =>
    match ((ranges.lookup slot).getD .empty).union (liveRange u v) with
    | .ok taken => takeEach u v ((slot, taken) :: ranges) slots
    | .error fault => (ranges, some fault)

/-- Places a value step by step: what has been written at the end, and why it ended early. -/
def attempt (reserved : Reserved) (u : CodeUnit) (config : Config) (v : ValueId)
    (register : Register) : Reserved × Option Failure :=
  if register < 0 ∨ config.maxRegisters < register + (u.value v).type.width then
    (reserved, some (.rejected u.name (.badFixedRegister (u.label v) register)))
  else
    match reserved.checkSlots u v ((u.value v).type.span register) with
    | .error failure => (reserved, some failure)
    | .ok () =>
      match takeEach u v reserved.ranges ((u.value v).type.span register) with
      | (ranges, some fault) => ({ reserved with ranges }, some (.fault fault))
      | (ranges, none) => ({ pieces := reserved.pieces ++ [u.whole v register], ranges }, none)

/-- Places values one after another, going on with what a refused one has left behind. -/
def attemptAll (u : CodeUnit) (config : Config) (reserved : Reserved) :
    List (ValueId × Register) → Reserved
  | [] => reserved
  | (v, register) :: requests =>
    attemptAll u config (reserved.attempt u config v register).1 requests

/-- Taking slots stops at the first fault, and only then forgets what was taken before. -/
theorem takeSlots_eq_takeEach (ranges : List (Register × LiveRange)) (slots : List Register) :
    takeSlots u v ranges slots = match takeEach u v ranges slots with
      | (taken, none) => .ok taken
      | (_, some fault) => .error fault := by
  induction slots generalizing ranges with
  | nil => rfl
  | cons slot slots ih =>
    rw [takeSlots, takeEach]
    cases ((ranges.lookup slot).getD .empty).union (liveRange u v) with
    | error fault => rfl
    | ok taken => exact ih _

/-- Step by step a value is placed as at once. -/
theorem place_eq_attempt : reserved.place u config v register =
    match reserved.attempt u config v register with
      | (placed, none) => .ok placed
      | (_, some failure) => .error failure := by
  rw [place, attempt]
  split
  · rfl
  · dsimp only
    rw [takeSlots_eq_takeEach]
    cases reserved.checkSlots u v ((u.value v).type.span register) with
    | error failure => rfl
    | ok _ =>
      obtain ⟨ranges, _ | fault⟩ :=
        takeEach u v reserved.ranges ((u.value v).type.span register)
      · rfl
      · rfl

/-- An attempt without a failure places the value. -/
theorem place_eq_ok (h : reserved.attempt u config v register = (placed, none)) :
    reserved.place u config v register = .ok placed := by
  rw [place_eq_attempt, h]

/-- An attempt with a failure does not place the value. -/
theorem place_eq_error {failure : Failure}
    (h : reserved.attempt u config v register = (placed, some failure)) :
    reserved.place u config v register = .error failure := by
  rw [place_eq_attempt, h]

/-! ## What an attempt comes to -/

/-- The table and the pieces agree, and the pieces do not clash. -/
structure Settled (u : CodeUnit) (reserved : Reserved) : Prop extends Tracked u reserved where
  apart : reserved.pieces.Pairwise (Piece.Apart u.pool)
  lasting : ∀ piece ∈ reserved.pieces, piece.start < piece.stop

/-- The slots of a value are not all among the registers that there are. -/
def OutOfBounds (u : CodeUnit) (config : Config) (v : ValueId) (register : Register) : Prop :=
  register.toInt < 0 ∨ config.maxRegisters.toInt < register.toInt + (u.pool.width v).toInt

theorem settled_empty (u : CodeUnit) : Settled u {} :=
  ⟨⟨exact_empty u, fun _ => .nil, by simp⟩, .nil, by simp⟩

/-- The positions of a slot are those that its pieces cover. -/
theorem Tracked.mem_rangeAt_iff (h : reserved.Tracked u) {position : Position} :
    position ∈ reserved.rangeAt slot ↔ ∃ piece ∈ reserved.pieces,
      piece.usesSlot u.pool slot = true ∧ piece.covers position = true :=
  ⟨h.user slot position, fun ⟨piece, hpiece, huses, hcovers⟩ =>
    h.complete piece hpiece slot huses position hcovers⟩

/-- A slot of a value is taken while it is live exactly if a piece shares it. -/
theorem Tracked.conflicts_iff (h : reserved.Tracked u) (hv : (u.value v).hasInterval = true)
    (hslot : slot ∈ (u.value v).type.span register) :
    (reserved.rangeAt slot).conflicts (liveRange u v) = true ↔
      ∃ piece ∈ reserved.pieces, piece.ShareAt u.pool (u.whole v register) slot := by
  have huses : (u.whole v register).usesSlot u.pool slot = true :=
    Piece.usesSlot_iff_mem_span.mpr hslot
  have hcovers : ∀ position, (u.whole v register).covers position = (u.value v).liveAt position :=
    fun _ => rfl
  rw [← Bool.not_eq_false, h.conflicts_eq_false_iff hv]
  simp only [Piece.ShareAt, huses, hcovers]
  grind

/-- As long as its end does not wrap around, a register is refused exactly if it is out of
bounds. -/
theorem outOfBounds_iff (hfits : (u.value v).type.Fits register) :
    register < 0 ∨ config.maxRegisters < register + (u.value v).type.width ↔
      OutOfBounds u config v register := by
  have hwidth := (u.value v).type.toInt_width
  have hend : (register + (u.value v).type.width).toInt =
      register.toInt + (u.value v).type.width.toInt := by
    have hlow := Int64.le_toInt register
    rw [MoveType.Fits, Int64.lt_iff_toInt_lt, Int64.toInt_add] at hfits
    rw [Int64.toInt_add]
    rw [Int.bmod_def] at hfits ⊢
    split at hfits
    · omega
    · omega
  rw [OutOfBounds, Int64.lt_iff_toInt_lt, Int64.lt_iff_toInt_lt, hend, Int64.toInt_zero]
  rfl

/-- The piece that is found in the way of a value shares the slot with it. -/
theorem Settled.shareAt_of_userOf (h : reserved.Settled u) (hv : (u.value v).hasInterval = true)
    (hslot : slot ∈ (u.value v).type.span register) {piece : Piece}
    (huser : reserved.userOf u slot v = .ok piece) :
    piece ∈ reserved.pieces ∧ piece.ShareAt u.pool (u.whole v register) slot := by
  unfold userOf at huser
  dsimp only at huser
  split at huser
  · next hfound =>
    cases huser
    have hmem := List.mem_of_find?_eq_some hfound
    have hpiece := List.find?_some hfound
    simp only [Bool.and_eq_true, decide_eq_true_eq] at hpiece
    obtain ⟨⟨huses, hstart⟩, hstop⟩ := hpiece
    have hlasting := h.lasting piece hmem
    have hlt : (u.value v).start < (u.value v).stop := by simpa [Value.hasInterval] using hv
    refine ⟨hmem, huses, Piece.usesSlot_iff_mem_span.mpr hslot, ?_⟩
    simp only [Piece.covers_iff, CodeUnit.whole]
    -- the later one of the two starts is a common position
    by_cases hle : piece.start ≤ (u.value v).start
    · exact ⟨(u.value v).start, ⟨hle, hstop⟩, Int64.le_refl _, hlt⟩
    · exact ⟨piece.start, ⟨Int64.le_refl _, hlasting⟩, by grind, hstart⟩
  · cases huser

/-- The slots of a value are looked at one after another, up to one that is taken. -/
theorem Settled.checkSlots_cases (h : reserved.Settled u) (hv : (u.value v).hasInterval = true)
    (slots : List Register) :
    reserved.checkSlots u v slots = .ok () ∧
        (∀ slot ∈ slots, (reserved.rangeAt slot).conflicts (liveRange u v) = false) ∨
      ∃ lower slot higher piece, slots = lower ++ slot :: higher ∧
        (∀ other ∈ lower, (reserved.rangeAt other).conflicts (liveRange u v) = false) ∧
        reserved.userOf u slot v = .ok piece ∧
        reserved.checkSlots u v slots =
          .error (.rejected u.name (.fixedTwice (u.label piece.value) (u.label v) slot)) := by
  induction slots with
  | nil => exact .inl ⟨rfl, by simp⟩
  | cons slot slots ih =>
    rw [checkSlots]
    by_cases hconflicts : (reserved.rangeAt slot).conflicts (liveRange u v) = true
    · obtain ⟨piece, huser⟩ := h.userOf hv hconflicts
      refine .inr ⟨[], slot, slots, piece, rfl, by simp, huser, ?_⟩
      rw [if_pos hconflicts, huser]
      rfl
    · rw [if_neg hconflicts]
      rw [Bool.not_eq_true] at hconflicts
      obtain ⟨hok, hfree⟩ | ⟨lower, other, higher, piece, rfl, hfree, huser, herror⟩ := ih
      · exact .inl ⟨hok, List.forall_mem_cons.mpr ⟨hconflicts, hfree⟩⟩
      · exact .inr ⟨slot :: lower, other, higher, piece, rfl,
          List.forall_mem_cons.mpr ⟨hconflicts, hfree⟩, huser, herror⟩

/-- A piece shares a slot and a position with a value. -/
def Blocked (u : CodeUnit) (reserved : Reserved) (v : ValueId) (register : Register) : Prop :=
  ∃ piece ∈ reserved.pieces, ∃ slot, piece.ShareAt u.pool (u.whole v register) slot

/-- The piece that a value is refused for: it shares a slot with the value, and there is no lower
slot that any piece shares with it. -/
structure InTheWay (u : CodeUnit) (reserved : Reserved) (v : ValueId) (register slot : Register)
    (piece : Piece) : Prop where
  found : reserved.userOf u slot v = .ok piece
  mem : piece ∈ reserved.pieces
  shares : piece.ShareAt u.pool (u.whole v register) slot
  lowest : ∀ other ∈ reserved.pieces, ∀ lower < slot,
    ¬ other.ShareAt u.pool (u.whole v register) lower

/-- An attempt ends in one of three ways. -/
theorem Settled.attempt_cases (h : reserved.Settled u) (config : Config)
    (hv : (u.value v).hasInterval = true) (hfits : (u.value v).type.Fits register) :
    OutOfBounds u config v register ∧ reserved.attempt u config v register =
        (reserved, some (.rejected u.name (.badFixedRegister (u.label v) register))) ∨
      ¬ OutOfBounds u config v register ∧
        (∃ slot piece, reserved.InTheWay u v register slot piece ∧
          reserved.attempt u config v register = (reserved,
            some (.rejected u.name (.fixedTwice (u.label piece.value) (u.label v) slot)))) ∨
      ¬ OutOfBounds u config v register ∧
        (∀ piece ∈ reserved.pieces, piece.Apart u.pool (u.whole v register)) ∧
        ∃ placed, reserved.attempt u config v register = (placed, none) ∧
          placed.pieces = reserved.pieces ++ [u.whole v register] := by
  rw [attempt]
  by_cases hbounds : register < 0 ∨ config.maxRegisters < register + (u.value v).type.width
  · exact .inl ⟨(outOfBounds_iff hfits).mp hbounds, if_pos hbounds⟩
  have hin := mt (outOfBounds_iff hfits).mpr hbounds
  rw [if_neg hbounds]
  obtain ⟨hok, hfree⟩ | ⟨lower, slot, higher, piece, hspan, hfree, huser, herror⟩ :=
    h.checkSlots_cases hv ((u.value v).type.span register)
  · refine .inr (.inr ⟨hin, fun piece hpiece => ?_, ?_⟩)
    · rw [Piece.apart_iff]
      intro slot hshare
      have hslot := Piece.usesSlot_iff_mem_span.mp hshare.2.1
      have htaken := (h.conflicts_iff hv hslot).mpr ⟨piece, hpiece, hshare⟩
      simp [hfree slot hslot] at htaken
    · -- all slots are free, so that they are taken without a fault
      obtain ⟨taken, htaken⟩ := exists_takeSlots (MoveType.nodup_span _ _) hfree
      rw [takeSlots_eq_takeEach] at htaken
      rw [hok]
      generalize takeEach u v reserved.ranges ((u.value v).type.span register) = result at htaken ⊢
      obtain ⟨ranges, _ | fault⟩ := result
      · exact ⟨_, rfl, rfl⟩
      · cases htaken
  · have hslot : slot ∈ (u.value v).type.span register := by simp [hspan]
    obtain ⟨hmem, hshares⟩ := h.shareAt_of_userOf hv hslot huser
    refine .inr (.inl ⟨hin, slot, piece, ⟨huser, hmem, hshares, ?_⟩, by rw [herror]⟩)
    intro other hother low hlt hshare
    have hlow := Piece.usesSlot_iff_mem_span.mp hshare.2.1
    change low ∈ (u.value v).type.span register at hlow
    have htaken := (h.conflicts_iff hv hlow).mpr ⟨other, hother, hshare⟩
    have hsorted := MoveType.pairwise_span (u.value v).type register
    rw [hspan] at hlow hsorted
    obtain hlow | rfl | hlow := (List.mem_append.mp hlow).imp_right List.mem_cons.mp
    · simp [hfree low hlow] at htaken
    · exact Int64.lt_irrefl hlt
    · have hgt := List.rel_of_pairwise_cons (List.pairwise_append.mp hsorted).2.1 hlow
      exact Int64.lt_asymm hlt hgt

/-- Whether an attempt succeeds or fails, the table stays settled. -/
theorem Settled.attempt (h : reserved.Settled u) (hv : (u.value v).hasInterval = true)
    (hfits : (u.value v).type.Fits register) :
    (reserved.attempt u config v register).1.Settled u := by
  obtain ⟨-, heq⟩ | ⟨-, slot, piece, -, heq⟩ | ⟨-, hapart, placed, heq, hpieces⟩ :=
    h.attempt_cases config hv hfits
  · rw [heq]
    exact h
  · rw [heq]
    exact h
  · rw [heq]
    refine ⟨h.toTracked.of_place hv (place_eq_ok heq), ?_, ?_⟩
    · rw [hpieces, List.pairwise_append]
      exact ⟨h.apart, List.pairwise_singleton _ _, by simpa using hapart⟩
    · have hlt : (u.value v).start < (u.value v).stop := by simpa [Value.hasInterval] using hv
      simpa [hpieces, or_imp, forall_and, CodeUnit.whole] using ⟨h.lasting, hlt⟩

/-- Any number of attempts leaves the table settled. -/
theorem settled_attemptAll {requests : List (ValueId × Register)} (h : reserved.Settled u)
    (hrequests : ∀ request ∈ requests, (u.value request.1).hasInterval = true ∧
      (u.value request.1).type.Fits request.2) :
    (attemptAll u config reserved requests).Settled u := by
  induction requests generalizing reserved with
  | nil => exact h
  | cons request requests ih =>
    obtain ⟨⟨hv, hfits⟩, hrest⟩ := List.forall_mem_cons.mp hrequests
    exact ih (h.attempt hv hfits) hrest

/-- What becomes of a value that is to be in a register: it is refused exactly if the register is
out of bounds or a piece is in the way, which then is found and named. A refusal leaves everything
as it was, and otherwise a piece is added. -/
structure Verdict (u : CodeUnit) (config : Config) (reserved : Reserved) (v : ValueId)
    (register : Register) : Prop where
  refused_iff : (∃ failure, reserved.place u config v register = .error failure) ↔
    OutOfBounds u config v register ∨ reserved.Blocked u v register
  bounds : OutOfBounds u config v register → reserved.place u config v register =
    .error (.rejected u.name (.badFixedRegister (u.label v) register))
  clash : ¬ OutOfBounds u config v register → reserved.Blocked u v register →
    ∃ slot piece, reserved.InTheWay u v register slot piece ∧ reserved.place u config v register =
      .error (.rejected u.name (.fixedTwice (u.label piece.value) (u.label v) slot))
  unchanged : ∀ failure, reserved.place u config v register = .error failure →
    reserved.attempt u config v register = (reserved, some failure)
  placed : ∀ placed, reserved.place u config v register = .ok placed →
    reserved.attempt u config v register = (placed, none) ∧
      placed.pieces = reserved.pieces ++ [u.whole v register]

/-- A settled table gives the verdict on a value and a register. -/
theorem Settled.verdict (h : reserved.Settled u) (config : Config)
    (hv : (u.value v).hasInterval = true) (hfits : (u.value v).type.Fits register) :
    Verdict u config reserved v register := by
  obtain ⟨hout, heq⟩ | ⟨hin, slot, piece, hway, heq⟩ | ⟨hin, hapart, placed, heq, hpieces⟩ :=
    h.attempt_cases config hv hfits
  · have hplace := place_eq_error heq
    constructor
    · simp [hplace, hout]
    · exact fun _ => hplace
    · exact fun hin => absurd hout hin
    · simpa [hplace] using heq
    · simp [hplace]
  · have hplace := place_eq_error heq
    have hblocked : reserved.Blocked u v register := ⟨piece, hway.mem, slot, hway.shares⟩
    constructor
    · simp [hplace, hblocked]
    · exact fun hout => absurd hout hin
    · exact fun _ _ => ⟨slot, piece, hway, hplace⟩
    · simpa [hplace] using heq
    · simp [hplace]
  · have hplace := place_eq_ok heq
    simp only [Piece.apart_iff] at hapart
    constructor
    · simpa [hplace, hin, Blocked] using hapart
    · exact fun hout => absurd hout hin
    · exact fun _ ⟨piece, hpiece, slot, hshares⟩ => absurd hshares (hapart piece hpiece slot)
    · simp [hplace]
    · simpa [hplace, heq] using hpieces

/-- **The table of fixed registers is exact.** Values with intervals are placed one after another,
refused ones included, in registers whose ends do not wrap around. Then a slot is taken at a
position exactly if a piece holds it there, no two pieces hold a slot at once, and the verdict on
the next value is right. -/
theorem attemptAll_exact {requests : List (ValueId × Register)}
    (hrequests : ∀ request ∈ requests, (u.value request.1).hasInterval = true ∧
      (u.value request.1).type.Fits request.2)
    (hreserved : attemptAll u config {} requests = reserved) :
    (∀ slot position, position ∈ reserved.rangeAt slot ↔ ∃ piece ∈ reserved.pieces,
      piece.usesSlot u.pool slot = true ∧ piece.covers position = true) ∧
    reserved.pieces.Pairwise (Piece.Apart u.pool) ∧
    ∀ v register, (u.value v).hasInterval = true → (u.value v).type.Fits register →
      Verdict u config reserved v register := by
  have hsettled : reserved.Settled u := hreserved ▸ settled_attemptAll (settled_empty u) hrequests
  exact ⟨fun slot position => hsettled.mem_rangeAt_iff, hsettled.apart,
    fun v register hv hfits => hsettled.verdict config hv hfits⟩

/-- The second value finds its first slot free and the wide one in its second; the third comes when
the wide one has ended. -/
def neighbours : CodeUnit where
  name := "neighbours"
  pool := {
    values := #[
      { number := 0, name := "w", type := .wide, start := 0, stop := 10 },
      { number := 1, name := "v", type := .wide, start := 4, stop := 8 },
      { number := 2, name := "s", type := .single, start := 10, stop := 12 }]
    instrs := #[] }
  values := [0, 1, 2]

theorem attemptAll_exact_neighbours : ∃ reserved,
    attemptAll neighbours {} {} [(0, 2), (1, 1), (2, 3)] = reserved ∧
    reserved.pieces = [neighbours.whole 0 2, neighbours.whole 2 3] ∧
    reserved.pieces.Pairwise (Piece.Apart neighbours.pool) ∧
    (11 ∈ reserved.rangeAt 3 ↔ ∃ piece ∈ reserved.pieces,
      piece.usesSlot neighbours.pool 3 = true ∧ piece.covers 11 = true) ∧
    Verdict neighbours {} reserved 1 1 := by
  refine ⟨_, rfl, by decide +kernel, ?_⟩
  obtain ⟨htable, hapart, hverdict⟩ :=
    @attemptAll_exact neighbours {} _ [(0, 2), (1, 1), (2, 3)] (by simp; decide) rfl
  exact ⟨hapart, htable 3 11, hverdict 1 1 (by decide) (by decide)⟩

end Reserved
end RegisterAllocation
