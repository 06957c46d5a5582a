import RegisterAllocation.Proofs.Encoding
import RegisterAllocation.Proofs.Reserved

/-!
# Instructions that are encoded alike

Instructions are compared to find out whether they are encoded in the same way. The comparison makes
sense for instructions whose values have registers where they need some and whose literals are known
(`Pool.Comparable`). What it sees of such an instruction is its view, so being alike is an
equivalence, and since an instruction is printed from nothing but its view
(`Pool.encodedText_eq_text`), instructions that are alike are printed alike
(`Pool.alike_equivalence`).
-/

namespace RegisterAllocation

/-! ## The text of a view -/

/-- The name of the operation with its operand type. -/
def Shape.opcodeName (shape : Shape) : String :=
  match shape.numeric with
  | none => shape.opcode.name
  | some type => shape.opcode.name ++ "-" ++ type.name

namespace OperandView

/-- The operand that is seen. A constant without a literal has none. -/
def operand : OperandView → Except Fault Operand
  | register number => .ok (.register number)
  | constant shape =>
    match shape.literal with
    | some literal => .ok (.literal literal)
    | none => .error .undefined

/-- The text of an output: constants that need no register are not written. -/
def outText : Option (MoveType × OperandView) → String
  | some (_, register number) => (Operand.register number).text
  | _ => "()"

end OperandView

/-- The text of an instruction of which this is seen. -/
def View.text (view : View) : Except Fault String := do
  let inputs ← view.inputs.mapM fun seen => seen.2.operand
  return "(" ++ view.shape.opcodeName ++ " " ++ OperandView.outText view.out
    ++ (match view.shape.literal with
      | some literal => " '" ++ literal.text
      | none => "")
    ++ (if view.shape.method = "" then "" else " " ++ view.shape.method)
    ++ String.join (inputs.map (" " ++ ·.text))
    ++ ")"

namespace Pool

variable (pool : Pool) (placement : Placement)

/-- Whether two instructions have the same encoding. -/
def Alike (i j : InstrId) : Prop := pool.sameEncoding placement i j = .ok true

instance : DecidableRel (pool.Alike placement) :=
  fun i j => inferInstanceAs (Decidable (pool.sameEncoding placement i j = .ok true))

/-- It is known of every value of an instruction whether it needs a register, and where it does, it
has one. -/
def Registered (i : InstrId) : Prop :=
  ∀ v ∈ pool.valuesOf i, ∃ needed, pool.needsRegister v = .ok needed ∧
    (needed = true → ∃ register, placement v (pool.instr i).number = .ok register)

/-- An instruction whose comparison with others has a meaning. -/
structure Comparable (i : InstrId) : Prop where
  registered : pool.Registered placement i
  known : pool.LiteralsKnown placement i

variable {pool placement} {i j k : InstrId} {number : Int64} {v : ValueId}

/-! ## Printing from the view -/

/-- The operand of a value is the one that is seen. -/
theorem operand_of_operandView {seen : MoveType × OperandView}
    (h : pool.operandView placement number v = .ok seen) :
    pool.operand placement number v = seen.2.operand := by
  rcases operandView_eq_ok h with ⟨register, hneeded, hregister, rfl⟩ | ⟨i, hneeded, hi, rfl⟩
  · simp only [operand, hneeded, hregister]
    rfl
  · obtain ⟨constant, hconstant⟩ := exists_constant hneeded
    obtain ⟨hdefinition, -, hliteral⟩ := constant?_eq_some hconstant
    obtain rfl : i = constant.definition := Option.some.inj (hi.symm.trans hdefinition)
    simp only [operand, hneeded, hconstant, Option.bind_some, ← hliteral, OperandView.operand,
      Instruction.shape]
    rfl

/-- The operands of values in a text depend only on what is seen of the values. -/
theorem mapM_operand_of_views {vs : List ValueId} {seen : List (MoveType × OperandView)}
    (h : vs.mapM (pool.operandView placement number) = .ok seen) :
    vs.mapM (pool.operand placement number) = seen.mapM fun operand => operand.2.operand := by
  induction vs generalizing seen with
  | nil =>
    cases h
    rfl
  | cons v vs ih =>
    obtain ⟨first, rest, hfirst, hrest, rfl⟩ := mapM_cons_eq_ok h
    rw [List.mapM_cons, List.mapM_cons, operand_of_operandView hfirst, ih hrest]

/-- The output in a text depends only on what is seen of it. -/
theorem outText_of_view {out : Option ValueId} {seen : Option (MoveType × OperandView)}
    (h : out.mapM (pool.operandView placement number) = .ok seen) :
    pool.outText placement number out = .ok (OperandView.outText seen) := by
  cases out with
  | none =>
    cases h
    rfl
  | some v =>
    obtain ⟨operand, hv, rfl⟩ := map_eq_ok h
    have hoperand := operand_of_operandView hv
    rcases operandView_eq_ok hv with ⟨register, hneeded, -, rfl⟩ | ⟨i, hneeded, -, rfl⟩
    · simp only [outText, hneeded, hoperand]
      rfl
    · simp only [outText, hneeded]
      rfl

/-- An instruction is printed from what the comparison sees of it. -/
theorem encodedText_eq_text {view : View} (h : pool.view placement i = .ok view) :
    pool.encodedText placement i = view.text := by
  obtain ⟨hshape, hout, hinputs⟩ := view_eq_ok h
  have hname : (pool.instr i).opcodeName = view.shape.opcodeName := by
    rw [hshape]
    rfl
  have hliteral : (pool.instr i).literal = view.shape.literal := by
    rw [hshape]
    rfl
  have hmethod : (pool.instr i).method = view.shape.method := by
    rw [hshape]
    rfl
  simp only [encodedText, outText_of_view hout, mapM_operand_of_views hinputs, hname, hliteral,
    hmethod]
  rfl

/-! ## Views of comparable instructions -/

/-- A value that has a register, or is known to need none, is seen. -/
theorem exists_operandView {needed : Bool} (hneeded : pool.needsRegister v = .ok needed)
    (hregister : needed = true → ∃ register, placement v number = .ok register) :
    ∃ seen, pool.operandView placement number v = .ok seen := by
  cases needed with
  | true =>
    obtain ⟨register, hregister⟩ := hregister rfl
    exact ⟨_, operandView_of_register hneeded hregister⟩
  | false =>
    obtain ⟨constant, hconstant⟩ := exists_constant hneeded
    exact ⟨_, operandView_of_definition hneeded (constant?_eq_some hconstant).1⟩

/-- An instruction with registers for its operands has a view. -/
theorem Registered.exists_view (h : pool.Registered placement i) :
    ∃ view, pool.view placement i = .ok view := by
  have hseen : ∀ v ∈ pool.valuesOf i, ∃ seen,
      pool.operandView placement (pool.instr i).number v = .ok seen := by
    intro v hv
    obtain ⟨needed, hneeded, hregister⟩ := h v hv
    exact exists_operandView hneeded hregister
  obtain ⟨hout, hinputs⟩ := List.forall_mem_append.mp hseen
  obtain ⟨inputs, hinputs⟩ := exists_mapM_iff.mpr hinputs
  cases hvalue : (pool.instr i).out with
  | none =>
    refine ⟨⟨(pool.instr i).shape, none, inputs⟩, ?_⟩
    rw [view, hvalue, hinputs]
    rfl
  | some v =>
    obtain ⟨seen, hv⟩ := hout v (by simp [hvalue])
    refine ⟨⟨(pool.instr i).shape, some seen, inputs⟩, ?_⟩
    simp only [view, hvalue, hinputs, Option.mapM_some, hv]
    rfl

/-- A literal that is known as an operand is known in the view. -/
theorem known_of_operand_ne {seen : MoveType × OperandView}
    (h : pool.operandView placement number v = .ok seen)
    (hknown : pool.operand placement number v ≠ .ok (.literal .unknown)) : seen.2.Known := by
  rw [operand_of_operandView h] at hknown
  cases hseen : seen.2 with
  | register register => trivial
  | constant shape =>
    intro hliteral
    simp [hseen, OperandView.operand, hliteral] at hknown

namespace Comparable

/-- An instruction that can be compared has a view in which every literal is known. -/
theorem exists_view (h : pool.Comparable placement i) :
    ∃ view, pool.view placement i = .ok view ∧ view.Known := by
  obtain ⟨view, hview⟩ := h.registered.exists_view
  obtain ⟨hshape, hout, hinputs⟩ := view_eq_ok hview
  refine ⟨view, hview, ?_, ?_, ?_⟩
  · rw [hshape]
    exact h.known.literal
  · intro seen hseen
    cases hvalue : (pool.instr i).out with
    | none =>
      rw [hvalue] at hout
      rw [← Except.ok.inj hout] at hseen
      cases hseen
    | some v =>
      rw [hvalue] at hout
      obtain ⟨found, hv, hfound⟩ := map_eq_ok hout
      obtain rfl : found = seen := Option.some.inj (hfound.trans hseen)
      exact known_of_operand_ne hv (h.known.operands v (by simp [valuesOf, hvalue]))
  · intro seen hseen
    obtain ⟨v, hv, heq⟩ := exists_of_mem_mapM hinputs hseen
    exact known_of_operand_ne heq (h.known.operands v (List.mem_append_right _ hv))

/-- Comparable instructions are compared by their views. -/
theorem sameEncoding_eq (hi : pool.Comparable placement i) (hj : pool.Comparable placement j) :
    pool.sameEncoding placement i j =
      .ok (decide (pool.view placement i = pool.view placement j)) := by
  obtain ⟨view, hview, hknown⟩ := hi.exists_view
  obtain ⟨view', hview', -⟩ := hj.exists_view
  rw [Pool.sameEncoding_eq hview hview' hknown, hview, hview']
  simp

/-- Two instructions that can be compared are alike if and only if they look the same. -/
theorem alike_iff (hi : pool.Comparable placement i) (hj : pool.Comparable placement j) :
    pool.Alike placement i j ↔ pool.view placement i = pool.view placement j := by
  rw [Alike, hi.sameEncoding_eq hj]
  simp

/-- An instruction that can be compared is like itself. -/
theorem alike_refl (hi : pool.Comparable placement i) : pool.Alike placement i i := by
  rw [hi.alike_iff hi]

/-- Instructions that can be compared are alike in both directions. -/
theorem alike_symm (hi : pool.Comparable placement i) (hj : pool.Comparable placement j)
    (h : pool.Alike placement i j) : pool.Alike placement j i := by
  rw [hi.alike_iff hj] at h
  rw [hj.alike_iff hi, h]

/-- Instructions that are like the same one are alike. -/
theorem alike_trans (hi : pool.Comparable placement i) (hj : pool.Comparable placement j)
    (hk : pool.Comparable placement k) (hij : pool.Alike placement i j)
    (hjk : pool.Alike placement j k) : pool.Alike placement i k := by
  rw [hi.alike_iff hj] at hij
  rw [hj.alike_iff hk] at hjk
  rw [hi.alike_iff hk, hij, hjk]

/-- Instructions that are alike are printed alike. -/
theorem encodedText_eq (hi : pool.Comparable placement i) (hj : pool.Comparable placement j)
    (h : pool.Alike placement i j) :
    pool.encodedText placement i = pool.encodedText placement j := by
  obtain ⟨view, hview, -⟩ := hi.exists_view
  obtain ⟨view', hview', -⟩ := hj.exists_view
  rw [hi.alike_iff hj, hview, hview'] at h
  rw [encodedText_eq_text hview, encodedText_eq_text hview', Except.ok.inj h]

/-- A comparable instruction has a text if its inputs have operands: an output without a register is
not written. -/
theorem exists_encodedText_iff (h : pool.Comparable placement i) :
    (∃ text, pool.encodedText placement i = .ok text) ↔
      ∀ v ∈ (pool.instr i).inputs, ∃ operand,
        pool.operand placement (pool.instr i).number v = .ok operand := by
  obtain ⟨view, hview, -⟩ := h.exists_view
  obtain ⟨-, hout, -⟩ := view_eq_ok hview
  rw [← exists_mapM_iff]
  constructor
  · rintro ⟨text, htext⟩
    obtain ⟨out, -, htext⟩ := bind_eq_ok htext
    obtain ⟨operands, hoperands, -⟩ := bind_eq_ok htext
    exact ⟨operands, hoperands⟩
  · rintro ⟨operands, hoperands⟩
    simp only [encodedText, outText_of_view hout, hoperands]
    exact ⟨_, rfl⟩

end Comparable

/-! ## The equivalence -/

/-- Having the same encoding is an equivalence on a list of instructions. -/
structure AlikeEquivalence (pool : Pool) (placement : Placement) (candidates : List InstrId) :
    Prop where
  decided : ∀ i ∈ candidates, ∀ j ∈ candidates, ∃ same,
    pool.sameEncoding placement i j = .ok same
  refl : ∀ i ∈ candidates, pool.Alike placement i i
  symm : ∀ i ∈ candidates, ∀ j ∈ candidates, pool.Alike placement i j → pool.Alike placement j i
  trans : ∀ i ∈ candidates, ∀ j ∈ candidates, ∀ k ∈ candidates,
    pool.Alike placement i j → pool.Alike placement j k → pool.Alike placement i k

/-- Among instructions that can be compared, being alike is an equivalence, and the comparison
answers. -/
theorem alikeEquivalence_of_comparable {candidates : List InstrId}
    (h : ∀ i ∈ candidates, pool.Comparable placement i) :
    AlikeEquivalence pool placement candidates where
  decided := fun i hi j hj => ⟨_, (h i hi).sameEncoding_eq (h j hj)⟩
  refl := fun i hi => (h i hi).alike_refl
  symm := fun i hi j hj => (h i hi).alike_symm (h j hj)
  trans := fun i hi j hj k hk => (h i hi).alike_trans (h j hj) (h k hk)

/-- **Having the same encoding is an equivalence that printing respects.** On instructions whose
values have registers where they need some and whose literals are known, the comparison always has
an answer, and being alike is reflexive, symmetric and transitive. Instructions that are alike are
printed alike; there is a text if the inputs have operands, which only a constant without a literal
has not. -/
theorem alike_equivalence (pool : Pool) (placement : Placement) (instrs : List InstrId)
    (h : ∀ i ∈ instrs, pool.Comparable placement i) :
    AlikeEquivalence pool placement instrs ∧
    (∀ i ∈ instrs, ∀ j ∈ instrs, pool.Alike placement i j →
      pool.encodedText placement i = pool.encodedText placement j) ∧
    ∀ i ∈ instrs, (∃ text, pool.encodedText placement i = .ok text) ↔
      ∀ v ∈ (pool.instr i).inputs, ∃ operand,
        pool.operand placement (pool.instr i).number v = .ok operand := by
  refine ⟨alikeEquivalence_of_comparable h, fun i hi j hj halike => ?_, fun i hi => ?_⟩
  · exact (h i hi).encodedText_eq (h j hj) halike
  · exact (h i hi).exists_encodedText_iff

/-- The sums of `x` and of `y` with constants that have the same literal. -/
def equalSums : Pool where
  values := #[
    { number := 0, name := "x", type := .single, uses := [2] },
    { number := 1, name := "y", type := .single, uses := [3] },
    { number := 2, name := "one", type := .single, definition := some 0, uses := [2] },
    { number := 3, name := "unit", type := .single, definition := some 1, uses := [3] },
    { number := 4, name := "a", type := .single, definition := some 2 },
    { number := 5, name := "b", type := .single, definition := some 3 }]
  instrs := #[
    { number := 2, opcode := .const, literal := some (.int 1), out := some 2 },
    { number := 4, opcode := .const, literal := some (.int 1), out := some 3 },
    { number := 6, opcode := .add, numeric := some .int, out := some 4, inputs := [0, 2] },
    { number := 8, opcode := .add, numeric := some .int, out := some 5, inputs := [1, 3] }]

/-- `y` takes over the register of `x`, and `b` that of `a`; the constants have no registers. -/
def sharedRegisters : Placement := fun v position =>
  match v, position with
  | 0, 6 | 1, 8 => .ok 1
  | 4, 6 | 5, 8 => .ok 5
  | _, _ => .error .undefined

theorem alike_equivalence_sums :
    equalSums.Alike sharedRegisters 2 3 ∧ equalSums.Alike sharedRegisters 3 2 ∧
    equalSums.encodedText sharedRegisters 2 = .ok "(add-int r5 r1 '1)" ∧
    equalSums.encodedText sharedRegisters 3 = .ok "(add-int r5 r1 '1)" := by
  have hfirst : ∀ v ∈ equalSums.valuesOf 2, v = 4 ∨ v = 0 ∨ v = 2 := by decide
  have hsecond : ∀ v ∈ equalSums.valuesOf 3, v = 5 ∨ v = 1 ∨ v = 3 := by decide
  have hcomparable : ∀ i ∈ [2, 3], equalSums.Comparable sharedRegisters i := by
    simp only [List.forall_mem_cons]
    refine ⟨⟨fun v hv => ?_, by decide, by decide⟩, ⟨fun v hv => ?_, by decide, by decide⟩, by simp⟩
    · rcases hfirst v hv with rfl | rfl | rfl
      · exact ⟨true, by decide, fun _ => ⟨5, rfl⟩⟩
      · exact ⟨true, by decide, fun _ => ⟨1, rfl⟩⟩
      · exact ⟨false, by decide, by simp⟩
    · rcases hsecond v hv with rfl | rfl | rfl
      · exact ⟨true, by decide, fun _ => ⟨5, rfl⟩⟩
      · exact ⟨true, by decide, fun _ => ⟨1, rfl⟩⟩
      · exact ⟨false, by decide, by simp⟩
  obtain ⟨hequivalence, htext, -⟩ := alike_equivalence equalSums sharedRegisters [2, 3] hcomparable
  have halike : equalSums.Alike sharedRegisters 2 3 := by decide
  have hprinted : equalSums.encodedText sharedRegisters 2 = .ok "(add-int r5 r1 '1)" := by
    decide +kernel
  refine ⟨halike, hequivalence.symm 2 (by simp) 3 (by simp) halike, hprinted, ?_⟩
  rw [← htext 2 (by simp) 3 (by simp) halike, hprinted]

end Pool
end RegisterAllocation
