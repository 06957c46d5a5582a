import RegisterAllocation.Code.Operand
import RegisterAllocation.Proofs.Building

/-!
# What the comparison of encodings sees

Two instructions are compared by what they say beside their values and by the operands that stand
for their values. `Pool.view` collects all of this. If every operand has an answer and every
literal is known, then two instructions have the same encoding if and only if they have the same
view (`Pool.sameEncoding_eq`), so that having the same encoding is an equivalence.
-/

namespace RegisterAllocation

/-! ## Shapes -/

/-- Literals are the same if they are equal and known. -/
theorem Literal.same_iff {x y : Literal} : x.same y = true ↔ x = y ∧ x ≠ .unknown := by
  cases x <;> cases y <;> simp [Literal.same]

/-- What an instruction says beside its values. -/
structure Shape where
  opcode : Opcode
  numeric : Option NumericType
  method : String
  literal : Option Literal
deriving DecidableEq, Repr

namespace Instruction

/-- What an instruction says beside its values. -/
def shape (instr : Instruction) : Shape :=
  ⟨instr.opcode, instr.numeric, instr.method, instr.literal⟩

/-- The comparison of shapes tells equal ones, unless the literal is not known. -/
theorem sameShape_iff {instr other : Instruction} :
    instr.sameShape other = true ↔
      instr.shape = other.shape ∧ instr.literal ≠ some .unknown := by
  cases hx : instr.literal <;> cases hy : other.literal <;>
    simp [sameShape, shape, hx, hy, Literal.same_iff, and_assoc]

/-- With a known literal, the comparison of shapes is equality. -/
theorem sameShape_eq {instr other : Instruction} (h : instr.literal ≠ some .unknown) :
    instr.sameShape other = decide (instr.shape = other.shape) := by
  rw [Bool.eq_iff_iff, sameShape_iff, decide_eq_true_eq, and_iff_left h]

end Instruction

/-! ## Views -/

/-- What the comparison sees of an operand: a register, or the shape of a constant. -/
inductive OperandView where
  | register (register : Register)
  | constant (shape : Shape)
deriving DecidableEq, Repr

/-- What the comparison sees of an instruction: its shape, and its operands with their types. -/
structure View where
  shape : Shape
  out : Option (MoveType × OperandView)
  inputs : List (MoveType × OperandView)
deriving DecidableEq, Repr

/-- The literal of a constant operand is known. -/
def OperandView.Known : OperandView → Prop
  | register _ => True
  | constant shape => shape.literal ≠ some .unknown

namespace Pool

variable (pool : Pool) (placement : Placement)

/-- What the comparison sees of a value in the instruction numbered `number`. -/
def operandView (number : Int64) (v : ValueId) : Except Fault (MoveType × OperandView) := do
  let type := (pool.value v).type
  if ← pool.needsRegister v then return (type, .register (← placement v number))
  else match (pool.value v).definition with
    | some i => return (type, .constant (pool.instr i).shape)
    | none => .error .undefined

/-- What the comparison sees of an instruction. -/
def view (i : InstrId) : Except Fault View := do
  let instr := pool.instr i
  let out ← instr.out.mapM (pool.operandView placement instr.number)
  let inputs ← instr.inputs.mapM (pool.operandView placement instr.number)
  return ⟨instr.shape, out, inputs⟩

def valuesOf (i : InstrId) : List ValueId := (pool.instr i).out.toList ++ (pool.instr i).inputs

/-- Every value of an instruction has an operand: a register where it needs one, and a literal
where it does not. -/
def Answers (i : InstrId) : Prop :=
  ∀ v ∈ pool.valuesOf i, ∃ operand,
    pool.operand placement (pool.instr i).number v = .ok operand

/-- The literals in an instruction are known. -/
structure LiteralsKnown (i : InstrId) : Prop where
  literal : (pool.instr i).literal ≠ some .unknown
  operands : ∀ v ∈ pool.valuesOf i,
    pool.operand placement (pool.instr i).number v ≠ .ok (.literal .unknown)

variable {pool placement}

/-! ## Operands -/

/-- An operand is the register of a value or the literal of the constant that defines it. -/
theorem operand_eq_ok {number : Int64} {v : ValueId} {operand : Operand}
    (h : pool.operand placement number v = .ok operand) :
    (∃ register, pool.needsRegister v = .ok true ∧ placement v number = .ok register ∧
      operand = .register register) ∨
    ∃ i literal, pool.needsRegister v = .ok false ∧ (pool.value v).definition = some i ∧
      (pool.instr i).literal = some literal ∧ operand = .literal literal := by
  obtain ⟨needed, hneeded, h⟩ := bind_eq_ok h
  cases needed with
  | true =>
    obtain ⟨register, hregister, h⟩ := bind_eq_ok h
    exact .inl ⟨register, hneeded, hregister, (Except.ok.inj h).symm⟩
  | false =>
    rw [if_neg (by decide)] at h
    split at h
    · next literal hliteral =>
      obtain ⟨constant, hconstant, hliteral⟩ := Option.bind_eq_some_iff.mp hliteral
      obtain ⟨hdefinition, -, hinstr⟩ := constant?_eq_some hconstant
      exact .inr ⟨_, literal, hneeded, hdefinition, hinstr.trans hliteral,
        (Except.ok.inj h).symm⟩
    · cases h

/-- A value that needs a register is seen by its register. -/
theorem operandView_of_register {number : Int64} {v : ValueId} {register : Register}
    (hneeded : pool.needsRegister v = .ok true) (hregister : placement v number = .ok register) :
    pool.operandView placement number v = .ok ((pool.value v).type, .register register) := by
  simp only [operandView, hneeded, hregister]
  rfl

/-- A value that needs no register is seen by the shape of its definition. -/
theorem operandView_of_definition {number : Int64} {v : ValueId} {i : InstrId}
    (hneeded : pool.needsRegister v = .ok false) (hi : (pool.value v).definition = some i) :
    pool.operandView placement number v =
      .ok ((pool.value v).type, .constant (pool.instr i).shape) := by
  simp only [operandView, hneeded, hi]
  rfl

/-- What can be seen of a value is its register or its constant. -/
theorem operandView_eq_ok {number : Int64} {v : ValueId} {seen : MoveType × OperandView}
    (h : pool.operandView placement number v = .ok seen) :
    (∃ register, pool.needsRegister v = .ok true ∧ placement v number = .ok register ∧
      seen = ((pool.value v).type, .register register)) ∨
    ∃ i, pool.needsRegister v = .ok false ∧ (pool.value v).definition = some i ∧
      seen = ((pool.value v).type, .constant (pool.instr i).shape) := by
  obtain ⟨needed, hneeded, h⟩ := bind_eq_ok h
  cases needed with
  | true =>
    obtain ⟨register, hregister, h⟩ := bind_eq_ok h
    exact .inl ⟨register, hneeded, hregister, (Except.ok.inj h).symm⟩
  | false =>
    rw [if_neg (by decide)] at h
    split at h
    · next i hdefinition => exact .inr ⟨i, hneeded, hdefinition, (Except.ok.inj h).symm⟩
    · cases h

/-- Two operands are the same if the comparison sees the same. -/
theorem sameOperand_eq {number number' : Int64} {v v' : ValueId}
    {seen seen' : MoveType × OperandView}
    (hseen : pool.operandView placement number v = .ok seen)
    (hseen' : pool.operandView placement number' v' = .ok seen') (hknown : seen.2.Known) :
    pool.sameOperand placement number v number' v' = .ok (decide (seen = seen')) := by
  by_cases htype : (pool.value v).type = (pool.value v').type
  · rcases operandView_eq_ok hseen with ⟨register, hneeded, hregister, rfl⟩ |
        ⟨i, hneeded, hdefinition, rfl⟩ <;>
      rcases operandView_eq_ok hseen' with ⟨register', hneeded', hregister', rfl⟩ |
        ⟨i', hneeded', hdefinition', rfl⟩ <;>
      simp only [sameOperand, htype, hneeded, hneeded']
    · simp [hregister, hregister', bind, Except.bind, pure, Except.pure]
    · simp [bind, Except.bind, pure, Except.pure]
    · simp [bind, Except.bind, pure, Except.pure]
    · simp [hdefinition, hdefinition', bind, Except.bind, pure, Except.pure,
        Instruction.sameShape_eq hknown]
  · have hne : seen ≠ seen' := by
      rcases operandView_eq_ok hseen with ⟨_, -, -, rfl⟩ | ⟨_, -, -, rfl⟩ <;>
        rcases operandView_eq_ok hseen' with ⟨_, -, -, rfl⟩ | ⟨_, -, -, rfl⟩ <;>
        simp [htype]
    simp [sameOperand, htype, hne]
    rfl

/-! ## Instructions -/

/-- Outputs are the same if and only if they look the same. -/
theorem sameOut_eq {number number' : Int64} {out out' : Option ValueId}
    {seen seen' : Option (MoveType × OperandView)}
    (hseen : out.mapM (pool.operandView placement number) = .ok seen)
    (hseen' : out'.mapM (pool.operandView placement number') = .ok seen')
    (hknown : ∀ operand ∈ seen, operand.2.Known) :
    pool.sameOut placement number number' out out' = .ok (decide (seen = seen')) := by
  cases out with
  | none =>
    cases hseen
    cases out' with
    | none =>
      cases hseen'
      rfl
    | some v' =>
      obtain ⟨operand', hv', rfl⟩ := map_eq_ok hseen'
      rfl
  | some v =>
    obtain ⟨operand, hv, rfl⟩ := map_eq_ok hseen
    cases out' with
    | none =>
      cases hseen'
      rfl
    | some v' =>
      obtain ⟨operand', hv', rfl⟩ := map_eq_ok hseen'
      simpa [sameOut] using sameOperand_eq hv hv' (hknown _ rfl)

/-- Operands are the same if and only if they look the same one by one. -/
theorem sameOperands_eq {number number' : Int64} {vs vs' : List ValueId}
    {seen seen' : List (MoveType × OperandView)}
    (hseen : vs.mapM (pool.operandView placement number) = .ok seen)
    (hseen' : vs'.mapM (pool.operandView placement number') = .ok seen')
    (hlength : vs.length = vs'.length) (hknown : ∀ operand ∈ seen, operand.2.Known) :
    pool.sameOperands placement number number' vs vs' = .ok (decide (seen = seen')) := by
  induction vs generalizing vs' seen seen' with
  | nil =>
    obtain rfl : vs' = [] := List.eq_nil_of_length_eq_zero hlength.symm
    cases hseen
    cases hseen'
    rfl
  | cons v vs ih =>
    cases vs' with
    | nil => simp at hlength
    | cons v' vs' =>
      obtain ⟨operand, seen, hv, hvs, rfl⟩ := mapM_cons_eq_ok hseen
      obtain ⟨operand', seen', hv', hvs', rfl⟩ := mapM_cons_eq_ok hseen'
      obtain ⟨hoperand, hknown⟩ := List.forall_mem_cons.mp hknown
      rw [sameOperands, sameOperand_eq hv hv' hoperand]
      by_cases hsame : operand = operand'
      · simpa [hsame, bind, Except.bind] using ih hvs hvs' (by simpa using hlength) hknown
      · simp [hsame, bind, Except.bind, pure, Except.pure]

end Pool

/-- The literals of a view are known. -/
structure View.Known (view : View) : Prop where
  literal : view.shape.literal ≠ some .unknown
  out : ∀ operand ∈ view.out, operand.2.Known
  inputs : ∀ operand ∈ view.inputs, operand.2.Known

namespace Pool

variable {pool : Pool} {placement : Placement} {i j : InstrId}

/-- A view shows the shape, the output and the inputs. -/
theorem view_eq_ok {view : View} (h : pool.view placement i = .ok view) :
    view.shape = (pool.instr i).shape ∧
    (pool.instr i).out.mapM (pool.operandView placement (pool.instr i).number) = .ok view.out ∧
    (pool.instr i).inputs.mapM (pool.operandView placement (pool.instr i).number) =
      .ok view.inputs := by
  obtain ⟨out, hout, h⟩ := bind_eq_ok h
  obtain ⟨inputs, hinputs, h⟩ := bind_eq_ok h
  cases h
  exact ⟨rfl, hout, hinputs⟩

/-- Two instructions have the same encoding if the comparison sees the same. -/
theorem sameEncoding_eq {view view' : View} (hview : pool.view placement i = .ok view)
    (hview' : pool.view placement j = .ok view') (hknown : view.Known) :
    pool.sameEncoding placement i j = .ok (decide (view = view')) := by
  obtain ⟨hshape, hout, hinputs⟩ := view_eq_ok hview
  obtain ⟨hshape', hout', hinputs'⟩ := view_eq_ok hview'
  have hliteral : (pool.instr i).literal ≠ some .unknown := fun h =>
    hknown.literal (by rw [hshape]; exact h)
  have hsame : view = view' ↔
      view.shape = view'.shape ∧ view.out = view'.out ∧ view.inputs = view'.inputs := by
    cases view
    cases view'
    simp
  simp only [sameEncoding, Instruction.sameShape_eq hliteral, ← hshape, ← hshape', hsame,
    sameOut_eq hout hout' hknown.out]
  by_cases hshapes : view.shape = view'.shape
  · by_cases houts : view.out = view'.out
    · by_cases hlength : (pool.instr i).inputs.length = (pool.instr j).inputs.length
      · simp [hshapes, houts, hlength, sameOperands_eq hinputs hinputs' hlength hknown.inputs,
          bind, Except.bind]
      · have hne : view.inputs ≠ view'.inputs := fun heq =>
          hlength (by rw [← length_of_mapM_eq_ok hinputs, ← length_of_mapM_eq_ok hinputs', heq])
        simp [hshapes, houts, hlength, hne, bind, Except.bind, pure, Except.pure]
    · simp [hshapes, houts, bind, Except.bind, pure, Except.pure]
  · simp [hshapes, pure, Except.pure]

end Pool
end RegisterAllocation
