import RegisterAllocation.Proofs.Scan.Run
import RegisterAllocation.Proofs.Schedule.Meaning

/-!
# Registers are not negative

Whatever the unit, the pieces and moves of its allocation are in registers that there are, as long
as the number of allocatable registers is not negative. Fixed registers are checked one by one
(`Reserved.Places`), and all others are found by searching upwards. The constants that are moved are
those of values.
-/

namespace RegisterAllocation

namespace Reserved

variable {u : CodeUnit} {config : Config} {reserved placed next : Reserved}

/-- Values are placed one after another. -/
inductive Places (u : CodeUnit) (config : Config) (reserved : Reserved) : Reserved → Prop
  | refl : Places u config reserved reserved
  | place {placed next : Reserved} {v : ValueId} {register : Register}
    (h : Places u config reserved placed)
    (hplace : placed.place u config v register = .ok next) : Places u config reserved next

/-- What is placed in two runs is placed in one. -/
theorem Places.trans (h : Places u config reserved placed) (h' : Places u config placed next) :
    Places u config reserved next := by
  induction h' with
  | refl => exact h
  | place _ hplace ih => exact ih.place hplace

/-- A row is placed value by value. -/
theorem places_placeRow {vs : List ValueId} {register : Register}
    (h : placeRow u config reserved register vs = .ok placed) :
    Places u config reserved placed := by
  induction vs generalizing reserved register with
  | nil =>
    cases h
    exact .refl
  | cons v vs ih =>
    obtain ⟨next, hplace, h⟩ := bind_eq_ok h
    exact (Places.refl.place hplace).trans (ih h)

/-- Pinned values are placed one by one. -/
theorem places_placePinned {vs : List ValueId}
    (h : placePinned u config reserved vs = .ok placed) : Places u config reserved placed := by
  induction vs generalizing reserved with
  | nil =>
    cases h
    exact .refl
  | cons v vs ih =>
    obtain ⟨-, h⟩ | ⟨register, next, -, hplace, h⟩ := placePinned_cons h
    · exact ih h
    · exact (Places.refl.place hplace).trans (ih h)

/-- The inputs of ranges are placed one by one. -/
theorem places_placeRanges {is : List InstrId} {seen : List (ValueId × InstrId)}
    (h : placeRanges u config reserved seen is = .ok placed) : Places u config reserved placed := by
  induction is generalizing reserved seen with
  | nil =>
    cases h
    exact .refl
  | cons i is ih =>
    obtain ⟨-, h⟩ | ⟨-, _, _, _, next, -, -, hrow, h⟩ := placeRanges_cons h
    · exact ih h
    · exact (places_placeRow hrow).trans (ih h)

/-- The arguments are placed first. -/
theorem places_ofUnit (h : ofUnit u config = .ok reserved) :
    ∃ arguments, placeRow u config {} 0 u.arguments = .ok arguments ∧
      Places u config arguments reserved := by
  rw [ofUnit] at h
  obtain ⟨arguments, harguments, h⟩ := bind_eq_ok h
  obtain ⟨pinned, hpinned, h⟩ := bind_eq_ok h
  exact ⟨arguments, placeRow_of_placeArguments harguments,
    (places_placePinned hpinned).trans (places_placeRanges h)⟩

/-- The pieces that are placed are in registers that there are, and span the intervals of their
values. -/
theorem Places.pieces (h : Places u config reserved placed) :
    ∃ added, placed.pieces = reserved.pieces ++ added ∧
      ∀ piece ∈ added, 0 ≤ piece.register ∧ piece.Whole u.pool := by
  induction h with
  | refl => exact ⟨[], (List.append_nil _).symm, by simp⟩
  | place _ hplace ih =>
    obtain ⟨hnonneg, hpieces, -, -⟩ := place_spec hplace
    obtain ⟨added, hadded, hall⟩ := ih
    refine ⟨added ++ [_], by rw [hpieces, hadded, List.append_assoc], fun piece hpiece => ?_⟩
    obtain hpiece | hpiece := List.mem_append.mp hpiece
    · exact hall piece hpiece
    · rw [List.mem_singleton.mp hpiece]
      exact ⟨hnonneg, rfl, rfl⟩

/-- Fixed pieces are in registers that there are, over the whole interval. -/
theorem pieces_ofUnit (h : ofUnit u config = .ok reserved) :
    ∀ piece ∈ reserved.pieces, 0 ≤ piece.register ∧ piece.Whole u.pool := by
  obtain ⟨arguments, hrow, hplaces⟩ := places_ofUnit h
  obtain ⟨added, hadded, hall⟩ := ((places_placeRow hrow).trans hplaces).pieces
  rw [hadded]
  exact hall

end Reserved

/-- A constant that is moved is that of a value. -/
def Move.FromPool (pool : Pool) (move : Move) : Prop :=
  ∀ constant, move.source = .constant constant → ∃ v, pool.constant? v = some constant

theorem Move.fromPool_ofRegisters (pool : Pool) (target source : Register) (type : MoveType) :
    (Move.ofRegisters target source type).FromPool pool := by
  intro constant hconstant
  rw [Move.ofRegisters] at hconstant
  split at hconstant
  · cases hconstant
  · cases hconstant

namespace Scan

variable {u : CodeUnit} {config : Config} {reserved : Reserved} {scan next : Scan}

/-- The pieces and moves of the scan are in registers that there are. -/
structure Numbered (u : CodeUnit) (scan : Scan) : Prop where
  nonneg : ∀ piece ∈ scan.ended ++ scan.active, 0 ≤ piece.register
  ordered : scan.moves.Ordered
  moves : ∀ position, ∀ move ∈ scan.moves.movesAt position,
    move.InRegisters ∧ move.FromPool u.pool

/-- A value that gets a register that there is keeps the numbers in order. -/
theorem Numbered.activate (h : scan.Numbered u) {v : ValueId} {register : Register}
    (hregister : 0 ≤ register) : (scan.activate u v register).Numbered u := by
  refine ⟨fun piece hpiece => ?_, h.ordered, h.moves⟩
  obtain hpiece | rfl := mem_activate hpiece
  · exact h.nonneg piece hpiece
  · exact hregister

theorem inRegisters_ofRegisters {target source : Register} {type : MoveType} (htarget : 0 ≤ target)
    (hsource : 0 ≤ source) : (Move.ofRegisters target source type).InRegisters := by
  rw [Move.ofRegisters, if_neg (Register.ne_noRegister hsource)]
  exact ⟨htarget, hsource⟩

/-- A value moves between registers that there are. -/
theorem inRegisters_relocation {head tail : Piece} (hhead : 0 ≤ head.register)
    (htail : 0 ≤ tail.register) : (relocation u head tail).InRegisters := by
  rw [relocation]
  split
  · exact ⟨htail, trivial⟩
  · exact inRegisters_ofRegisters htail hhead

/-- A value that moves takes its own constant along. -/
theorem fromPool_relocation (head tail : Piece) : (relocation u head tail).FromPool u.pool := by
  rw [relocation]
  split
  · next constant hconstant =>
    rintro _ ⟨⟩
    exact ⟨head.value, hconstant⟩
  · exact Move.fromPool_ofRegisters _ _ _ _

variable (hregisters : 0 ≤ config.registers)
include hregisters

/-- The spill area has registers that there are. -/
theorem nonneg_of_spillRegister {v : ValueId} {start stop : Position} {register : Register}
    (h : scan.spillRegister u config reserved v start stop = .ok register) : 0 ≤ register := by
  rw [spillRegister] at h
  split at h
  · next found hfound =>
    cases h
    exact Int64.le_trans hregisters (findFree?_eq_some hfound).1
  · cases h

/-- A victim goes to a register that there is. -/
theorem Numbered.evict (h : scan.Numbered u) {victim : Piece} (hvictim : 0 ≤ victim.register)
    {position : Position} (hevict : scan.evict u config reserved victim position = .ok next) :
    next.Numbered u := by
  rw [Scan.evict] at hevict
  obtain ⟨register, hspill, hevict⟩ := bind_eq_ok hevict
  have hregister := nonneg_of_spillRegister hregisters hspill
  have hkept : ∀ piece ∈ scan.ended ++ scan.active.filter (·.value ≠ victim.value),
      0 ≤ piece.register := fun piece hpiece => h.nonneg piece
    (List.mem_append.mpr ((List.mem_append.mp hpiece).imp_right List.mem_of_mem_filter))
  by_cases hnow : victim.start = position
  · rw [if_pos hnow] at hevict
    cases hevict
    refine ⟨fun piece hpiece => ?_, h.ordered, h.moves⟩
    rw [← List.append_assoc, List.mem_append, List.mem_singleton] at hpiece
    obtain hpiece | rfl := hpiece
    · exact hkept piece hpiece
    · exact hregister
  · rw [if_neg hnow] at hevict
    cases hevict
    refine ⟨fun piece hpiece => ?_, h.ordered.add _ _, fun other move hmove => ?_⟩
    · simp only [List.mem_append, List.mem_singleton] at hpiece hkept
      obtain (hpiece | rfl) | hpiece | rfl := hpiece
      · exact hkept piece (.inl hpiece)
      · exact hvictim
      · exact hkept piece (.inr hpiece)
      · exact hregister
    · rw [MoveTable.movesAt_add h.ordered] at hmove
      by_cases heq : other = position
      · rw [if_pos heq, List.mem_append, List.mem_singleton] at hmove
        obtain hmove | rfl := hmove
        · exact h.moves position move hmove
        · exact ⟨@inRegisters_relocation u { victim with stop := position }
            { victim with start := position, register } hvictim hregister, fromPool_relocation
              { victim with stop := position } { victim with start := position, register }⟩
      · rw [if_neg heq] at hmove
        exact h.moves other move hmove

/-- The numbers stay in order whichever way a value finds its place. -/
theorem Numbered.placeEvicting {v : ValueId} {candidates : List Piece} (h : scan.Numbered u)
    (hcandidates : ∀ victim ∈ candidates, 0 ≤ victim.register)
    (hplace : placeEvicting u config reserved v scan candidates = .ok next) : next.Numbered u := by
  refine placeEvicting_induction (P := fun current rest =>
    current.Numbered u ∧ ∀ victim ∈ rest, 0 ≤ victim.register) ?_ ?_ ?_ ⟨h, hcandidates⟩ hplace
  · rintro current rest ⟨hcurrent, -⟩ hfound
    obtain ⟨register, hregister, rfl⟩ := Option.map_eq_some_iff.mp hfound
    exact hcurrent.activate (findFree?_eq_some hregister).1
  · rintro current rest ⟨hcurrent, -⟩ - hspill
    obtain ⟨register, hregister, hspill⟩ := bind_eq_ok hspill
    cases hspill
    exact hcurrent.activate (nonneg_of_spillRegister hregisters hregister)
  · rintro current evicted victim rest ⟨hcurrent, hvictims⟩ - hevict
    obtain ⟨hvictim, hrest⟩ := List.forall_mem_cons.mp hvictims
    exact ⟨hcurrent.evict hregisters hvictim hevict, hrest⟩

/-- The numbers stay in order through the whole scan. -/
theorem Numbered.placeAll {vs : List ValueId} (h : scan.Numbered u)
    (hplace : placeAll u config reserved scan vs = .ok next) : next.Numbered u := by
  induction vs generalizing scan with
  | nil =>
    cases hplace
    exact h
  | cons v vs ih =>
    rw [Scan.placeAll] at hplace
    obtain ⟨placed, hv, hplace⟩ := bind_eq_ok hplace
    have hexpire : (scan.expire (u.value v).start).Numbered u :=
      ⟨fun piece hpiece => h.nonneg piece (mem_of_mem_expire hpiece), h.ordered, h.moves⟩
    refine ih (hexpire.placeEvicting hregisters (fun victim hvictim => ?_) hv) hplace
    exact hexpire.nonneg victim (List.mem_append_right _ (mem_candidates.mp hvictim).1)

/-- After the scan of a unit every piece is in a register that there is, and so is every move. -/
theorem numbered_ofUnit (h : ofUnit u config reserved = .ok scan) : scan.Numbered u := by
  rw [ofUnit] at h
  obtain ⟨vs, -, h⟩ := bind_eq_ok h
  have hempty : Numbered u {} := ⟨by simp, .nil, by simp [MoveTable.movesAt]⟩
  exact hempty.placeAll hregisters h

end Scan

end RegisterAllocation
