import RegisterAllocation.Allocation.Basic
import Mathlib.Algebra.Group.Int.Defs

/-!
# Footprints

Which slots a value in a register takes. A footprint is given in two ways: as the list of its slots
(`MoveType.footprint`), and by its bounds (`Piece.usesSlot`). The two agree as long as the end of
the value does not wrap around; where it does, the bounds enclose no slot at all.
-/

namespace RegisterAllocation

theorem Register.ne_noRegister {register : Register} (h : 0 ≤ register) :
    register ≠ noRegister := by
  rintro rfl
  exact absurd h (by decide)

/-- A register has a next one as long as numbers last. -/
theorem Register.lt_add_one {register : Register} (h : register.toInt + 1 < 2 ^ 63) :
    register < register + 1 := by
  have hone : (1 : Int64).toInt = 1 := by decide
  have hlow := Int64.le_toInt register
  rw [Int64.lt_iff_toInt_lt, Int64.toInt_add, hone, Int.bmod_eq_of_le (by omega) (by omega)]
  omega

namespace MoveType

/-- A value takes one slot or two. -/
@[grind =>]
theorem one_le_width (type : MoveType) : 1 ≤ type.width ∧ type.width ≤ 2 := by
  cases type <;> decide

theorem toInt_width (type : MoveType) : type.width.toInt = 1 ∨ type.width.toInt = 2 := by
  cases type <;> decide

/-- The end of a value does not wrap around well below the last register. -/
theorem toInt_add_width (type : MoveType) {register : Register} (hnonneg : 0 ≤ register)
    (hbound : register.toInt + 2 < 2 ^ 63) :
    (register + type.width).toInt = register.toInt + type.width.toInt := by
  have hwidth := type.toInt_width
  rw [Int64.le_iff_toInt_le, Int64.toInt_zero] at hnonneg
  rw [Int64.toInt_add]
  exact Int.bmod_eq_of_le (by omega) (by omega)

/-- The end of a value in a register does not wrap around. -/
def Fits (type : MoveType) (register : Register) : Prop := register < register + type.width

instance (type : MoveType) (register : Register) : Decidable (type.Fits register) :=
  inferInstanceAs (Decidable (register < register + type.width))

/-- A value fits well below the last register. -/
theorem fits_of_lt (type : MoveType) {register : Register} (hnonneg : 0 ≤ register)
    (hbound : register.toInt + 2 < 2 ^ 63) : type.Fits register := by
  have hwidth := type.toInt_width
  rw [Fits, Int64.lt_iff_toInt_lt, type.toInt_add_width hnonneg hbound]
  omega

/-- Where a wide value fits, there are two more register numbers. -/
theorem lt_of_fits_wide {register : Register} (hnonneg : 0 ≤ register)
    (h : MoveType.wide.Fits register) : register.toInt + 2 < 2 ^ 63 := by
  have htwo : MoveType.wide.width.toInt = 2 := by decide
  have hlast := Int64.toInt_lt register
  rw [Int64.le_iff_toInt_le, Int64.toInt_zero] at hnonneg
  rw [Fits, Int64.lt_iff_toInt_lt, Int64.toInt_add, htwo, Int.bmod_def] at h
  split at h <;> omega

/-- A value takes its register, and a wide one the next register too. -/
theorem mem_footprint {type : MoveType} {register slot : Register} :
    slot ∈ type.footprint register ↔ slot = register ∨ type = .wide ∧ slot = register + 1 := by
  cases type <;> simp [footprint]

theorem self_mem_footprint (type : MoveType) (register : Register) :
    register ∈ type.footprint register := mem_footprint.mpr (.inl rfl)

/-- The slots of a value are different. -/
theorem nodup_footprint (type : MoveType) (register : Register) :
    (type.footprint register).Nodup := by
  have hne : register ≠ register + 1 := by grind
  cases type <;> simp [footprint, hne]

theorem head?_map_footprint {α : Type} (type : MoveType) (register : Register)
    (f : Register → α) : ((type.footprint register).map f).head? = some (f register) := by
  cases type <;> rfl

/-- Footprints depend on the width only. -/
theorem footprint_congr {type type' : MoveType} (h : type.width = type'.width)
    (register : Register) : type.footprint register = type'.footprint register := by
  cases type <;> cases type' <;> first | rfl | exact absurd h (by decide)

/-- The slots of a wide value include those of any value in the same register. -/
theorem footprint_subset_wide (type : MoveType) (register : Register) :
    type.footprint register ⊆ MoveType.wide.footprint register := by
  cases type <;> simp [footprint]

/-- The slots that are looked at are different. -/
theorem nodup_span (type : MoveType) (register : Register) : (type.span register).Nodup := by
  rw [span]
  split
  · exact nodup_footprint _ _
  · exact List.nodup_nil

/-- The slots that are searched are those within the bounds. -/
theorem mem_span {type : MoveType} {register slot : Register} :
    slot ∈ type.span register ↔ register ≤ slot ∧ slot < register + type.width := by
  by_cases h : register < register + type.width
  · rw [span, if_pos h, mem_footprint]
    cases type <;> simp only [width] at h ⊢ <;> grind
  · rw [span, if_neg h]
    grind

/-- A value that fits takes the registers up to its end. -/
theorem mem_footprint_iff_of_fits {type : MoveType} {register slot : Register}
    (h : type.Fits register) :
    slot ∈ type.footprint register ↔ register ≤ slot ∧ slot < register + type.width := by
  rw [← mem_span, span, if_pos (show register < register + type.width from h)]

/-- Footprints meet in a slot of both. -/
theorem footprintsMeet_iff {type type' : MoveType} {register register' : Register} :
    type.footprintsMeet register type' register' = true ↔
      ∃ slot ∈ type.footprint register, slot ∈ type'.footprint register' := by
  simp [footprintsMeet]

/-- Footprints that do not meet have no slot in common. -/
theorem footprintsMeet_eq_false_iff {type type' : MoveType} {register register' : Register} :
    type.footprintsMeet register type' register' = false ↔
      ∀ slot ∈ type.footprint register, slot ∉ type'.footprint register' := by
  simp [footprintsMeet]

end MoveType

namespace Move

/-- A move writes its target, and a wide one the next register too. -/
theorem mem_written {move : Move} {slot : Register} :
    slot ∈ move.written ↔ slot = move.target ∨ move.type = .wide ∧ slot = move.target + 1 :=
  MoveType.mem_footprint

theorem writes_iff {move : Move} {slot : Register} :
    move.writes slot = true ↔ slot ∈ move.written := by simp [writes]

theorem target_mem_written (move : Move) : move.target ∈ move.written :=
  MoveType.self_mem_footprint _ _

end Move

namespace Piece

/-- A piece covers its start, and not its stop. -/
theorem covers_iff {piece : Piece} {position : Position} :
    piece.covers position = true ↔ piece.start ≤ position ∧ position < piece.stop := by
  simp [covers]

/-- A piece uses the slots from its register to its end. -/
theorem usesSlot_iff {pool : Pool} {piece : Piece} {slot : Register} :
    piece.usesSlot pool slot = true ↔
      piece.register ≤ slot ∧ slot < piece.register + pool.width piece.value := by
  simp [usesSlot]

/-- The slots of a piece are those that are searched for it. -/
theorem usesSlot_iff_mem_span {pool : Pool} {piece : Piece} {slot : Register} :
    piece.usesSlot pool slot = true ↔
      slot ∈ (pool.value piece.value).type.span piece.register := by
  rw [usesSlot_iff, MoveType.mem_span, Pool.width]

/-- The pieces of a value are those with its id. -/
theorem mem_ofValue {pieces : List Piece} {v : ValueId} {piece : Piece} :
    piece ∈ ofValue pieces v ↔ piece ∈ pieces ∧ piece.value = v := by
  simp [ofValue]

theorem ofValue_append (pieces pieces' : List Piece) (v : ValueId) :
    ofValue (pieces ++ pieces') v = ofValue pieces v ++ ofValue pieces' v := by
  simp [ofValue]

end Piece
end RegisterAllocation
