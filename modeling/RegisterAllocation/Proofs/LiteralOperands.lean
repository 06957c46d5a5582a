import RegisterAllocation.Proofs.Building
import RegisterAllocation.Proofs.Reserved
import Mathlib.Algebra.Order.Ring.Int

/-!
# Literal operands

A constant that needs no register has to be written into every instruction that reads it. In a pool
that is made instruction by instruction the uses of a value are the instructions that read it
(`Pool.Made.linked`), so the question whether any use needs the value in a register is about all of
its readers: a value needs no register exactly if it is a constant and each of its readers holds it
as a literal (`Pool.needsRegister_iff_holdsLiteral`).

An integer is small enough for an operand if it lies in the two's complement range of the operand's
bits, of which there are less than 64 (`Literal.fitsInBits_eq_range`).
-/

namespace RegisterAllocation

/-! ## Integers that fit -/

namespace Literal

/-- A shifted one is a power of two up to the sign bit. -/
theorem toInt_one_shiftLeft {shift : Int64} (hnonneg : 0 ≤ shift) (hlt : shift < 63) :
    ((1 : Int64) <<< shift).toInt = 2 ^ shift.toInt.toNat := by
  have hpowers : ∀ k : Fin 63, ((1 : Int64) <<< Int64.ofNat k).toInt = 2 ^ k.val := by decide
  rw [Int64.le_iff_toInt_le, Int64.toInt_zero] at hnonneg
  rw [Int64.lt_iff_toInt_lt, show (63 : Int64).toInt = 63 by decide] at hlt
  have hshift : Int64.ofNat shift.toInt.toNat = shift := by
    rw [← Int64.ofInt_eq_ofNat, Int.toNat_of_nonneg hnonneg, Int64.ofInt_toInt]
  have hpower := hpowers ⟨shift.toInt.toNat, by omega⟩
  rwa [hshift] at hpower

/-- An integer fits in fewer than 64 bits if it lies in their two's complement range. -/
theorem fitsInBits_int (n : Int) {bits : Int64} (hpos : 1 ≤ bits) (hlt : bits < 64) :
    fitsInBits (some (.int n)) bits =
      .ok (decide (-2 ^ (bits.toInt.toNat - 1) ≤ n ∧ n < 2 ^ (bits.toInt.toNat - 1))) := by
  have hshift : (bits - 1).toInt = bits.toInt - 1 := by
    rw [Int64.le_iff_toInt_le, show (1 : Int64).toInt = 1 by decide] at hpos
    have hbound := Int64.toInt_lt bits
    rw [Int64.toInt_sub, show (1 : Int64).toInt = 1 by decide]
    exact Int.bmod_eq_of_le (by omega) (by omega)
  have hlimit : ((1 : Int64) <<< (bits - 1)).toInt = 2 ^ (bits.toInt.toNat - 1) := by
    rw [toInt_one_shiftLeft (by grind) (by grind), hshift]
    congr 1
    omega
  have hsmall : (2 : Int) ^ (bits.toInt.toNat - 1) ≤ 2 ^ 62 := by
    rw [Int64.lt_iff_toInt_lt, show (64 : Int64).toInt = 64 by decide] at hlt
    exact pow_le_pow_right₀ (by decide) (by omega)
  have hneg : (-((1 : Int64) <<< (bits - 1))).toInt = -2 ^ (bits.toInt.toNat - 1) := by
    have hnonneg : (0 : Int) ≤ 2 ^ (bits.toInt.toNat - 1) := pow_nonneg (by decide) _
    rw [Int64.toInt_neg, hlimit]
    exact Int.bmod_eq_of_le (by omega) (by omega)
  unfold fitsInBits
  dsimp only
  by_cases hword : n < -0x8000000000000000 ∨ 0x8000000000000000 ≤ n
  · have hout : ¬(-2 ^ (bits.toInt.toNat - 1) ≤ n ∧ n < 2 ^ (bits.toInt.toNat - 1)) := by omega
    rw [if_pos hword, decide_eq_false hout]
  · have hn : (Int64.ofInt n).toInt = n := Int64.toInt_ofInt_of_le (by omega) (by omega)
    have hcount : ¬ bits - 1 < 0 := by grind
    have hroom : bits - 1 < 64 := by grind
    simp only [hword, if_false, hcount, hroom, if_true, Int64.le_iff_toInt_le,
      Int64.lt_iff_toInt_lt, hneg, hlimit, hn, Bool.decide_and]

/-- Nothing fits in 64 bits or more: the bound is then the least word or zero, and no word lies
between its negative and itself. -/
theorem fitsInBits_int_of_le (n : Int) {bits : Int64} (h : 64 ≤ bits) :
    fitsInBits (some (.int n)) bits = .ok false := by
  have hshift : ¬ bits - 1 < 0 := by grind
  have hempty : ∀ limit word : Int64, limit ≤ -limit →
      (decide (-limit ≤ word) && decide (word < limit)) = false := by
    intro limit word hle
    by_cases hlow : -limit ≤ word
    · simp [Int64.not_lt.mpr (Int64.le_trans hle hlow)]
    · simp [hlow]
  unfold fitsInBits
  by_cases hword : n < -0x8000000000000000 ∨ 0x8000000000000000 ≤ n
  · simp only [if_pos hword]
  · simp only [if_neg hword, if_neg hshift]
    by_cases hlast : bits = 64
    · rw [hlast, hempty _ _ (by decide)]
    · have hpast : ¬ bits - 1 < 64 := by grind
      rw [if_neg hpast, hempty _ _ (by decide)]

/-- Whether an integer fits, for every number of bits. -/
theorem fitsInBits_int_eq (n : Int) {bits : Int64} (hbits : 1 ≤ bits) :
    fitsInBits (some (.int n)) bits = .ok (decide (bits < 64 ∧
      -2 ^ (bits.toInt.toNat - 1) ≤ n ∧ n < 2 ^ (bits.toInt.toNat - 1))) := by
  by_cases hlt : bits < 64
  · simp [fitsInBits_int n hbits hlt, hlt]
  · simp [fitsInBits_int_of_le n (Int64.not_lt.mp hlt), hlt]

/-- **Which integers fit.** Below 64 bits the test is that of the two's complement range, so that an
integer that fits in some bits also fits in more of them. From 64 bits on nothing fits. -/
theorem fitsInBits_eq_range (n : Int) {bits : Int64} (hbits : 1 ≤ bits) :
    fitsInBits (some (.int n)) bits = .ok (decide (bits < 64 ∧
      -2 ^ (bits.toInt.toNat - 1) ≤ n ∧ n < 2 ^ (bits.toInt.toNat - 1))) ∧
    (fitsInBits (some (.int n)) bits = .ok true → ∀ wider, bits ≤ wider →
      fitsInBits (some (.int n)) wider = .ok (decide (wider < 64))) := by
  refine ⟨fitsInBits_int_eq n hbits, fun hfits wider hle => ?_⟩
  rw [fitsInBits_int_eq n hbits] at hfits
  obtain ⟨-, hlow, hhigh⟩ := of_decide_eq_true (Except.ok.inj hfits)
  have hpow : (2 : Int) ^ (bits.toInt.toNat - 1) ≤ 2 ^ (wider.toInt.toNat - 1) := by
    rw [Int64.le_iff_toInt_le] at hle
    exact pow_le_pow_right₀ (by decide) (by omega)
  have hrange : -2 ^ (wider.toInt.toNat - 1) ≤ n ∧ n < 2 ^ (wider.toInt.toNat - 1) := by omega
  rw [fitsInBits_int_eq n (Int64.le_trans hbits hle)]
  simp only [hrange, and_true]

theorem fitsInBits_eq_range_byte :
    fitsInBits (some (.int (-128))) 8 = .ok true ∧
      fitsInBits (some (.int (-128))) 63 = .ok true ∧
      fitsInBits (some (.int (-128))) 64 = .ok false := by
  have hbits : (1 : Int64) ≤ 8 := by decide
  obtain ⟨hbyte, hwider⟩ := fitsInBits_eq_range (-128) hbits
  have hfits : fitsInBits (some (.int (-128))) 8 = .ok true := hbyte.trans (by decide)
  exact ⟨hfits, hwider hfits 63 (by decide), hwider hfits 64 (by decide)⟩

/-- Zero fits in 63 bits and not in 64, although it lies in the range of 64 bits. An integer of more
than 64 bits does not fit in any number of bits. -/
theorem zero_does_not_fit_in_64 :
    fitsInBits (some (.int 0)) 63 = .ok true ∧ fitsInBits (some (.int 0)) 64 = .ok false ∧
      ¬ (fitsInBits (some (.int 0)) 64 = .ok true ↔
        -2 ^ ((64 : Int64).toInt.toNat - 1) ≤ (0 : Int) ∧
          (0 : Int) < 2 ^ ((64 : Int64).toInt.toNat - 1)) ∧
      fitsInBits (some (.int (2 ^ 70))) 128 = .ok false := by
  decide

end Literal

/-- The integers that an operation can hold as a literal. Shifts have eight bits for it, all others
sixteen. -/
def Opcode.Holds (opcode : Opcode) (n : Int) : Prop :=
  match opcode with
  | .shl | .shr => -128 ≤ n ∧ n ≤ 127
  | _ => -32768 ≤ n ∧ n ≤ 32767

instance (opcode : Opcode) (n : Int) : Decidable (opcode.Holds n) := by
  unfold Opcode.Holds
  split <;> infer_instance

/-- A number fits into the bits of an instruction if and only if it is in the range of the
opcode. -/
theorem Instruction.fitsInBits_iff {instr : Instruction} {n : Int} :
    Literal.fitsInBits (some (.int n)) instr.literalBits = .ok true ↔ instr.opcode.Holds n := by
  have hshort : (8 : Int64).toInt.toNat = 8 := by decide
  have hlong : (16 : Int64).toInt.toNat = 16 := by decide
  rw [literalBits]
  split
  · next h =>
    rw [Literal.fitsInBits_int n (by decide) (by decide), hshort]
    simp [Opcode.Holds, h]
    omega
  · next h =>
    rw [Literal.fitsInBits_int n (by decide) (by decide), hshort]
    simp [Opcode.Holds, h]
    omega
  · rw [Literal.fitsInBits_int n (by decide) (by decide), hlong]
    simp [Opcode.Holds]
    omega

/-! ## Pools made instruction by instruction -/

namespace Pool

/-- The pools that can be made: values are added and changed, which touches neither their
definitions nor their uses, and instructions are added whose inputs are there. -/
inductive Made : Pool → Prop
  | empty : Made .empty
  | value {pool : Pool} {value : Value} (h : pool.Made) (hdefinition : value.definition = none)
    (huses : value.uses = []) : Made (pool.addValue value).2
  | changed {pool : Pool} {v : ValueId} {change : Value → Value} (h : pool.Made)
    (hdefinition : ∀ value, (change value).definition = value.definition)
    (huses : ∀ value, (change value).uses = value.uses) : Made (pool.modifyValue v change)
  | const {pool next : Pool} {number : Int64} {out : Option ValueId} {literal : Option Literal}
    {i : InstrId} (h : pool.Made) (hadd : pool.addConst number out literal = .ok (i, next)) :
    Made next
  | binop {pool next : Pool} {number : Int64} {opcode : Opcode} {numeric : Option NumericType}
    {out : Option ValueId} {left right : ValueId} {i : InstrId} (h : pool.Made)
    (hleft : left < pool.values.size) (hright : right < pool.values.size)
    (hadd : pool.addBinop number opcode numeric out left right = .ok (i, next)) : Made next
  | invoke {pool next : Pool} {number : Int64} {opcode : Opcode} {method : String}
    {out : Option ValueId} {inputs : List ValueId} {i : InstrId} (h : pool.Made)
    (hinputs : ∀ v ∈ inputs, v < pool.values.size)
    (hadd : pool.addInvoke number opcode method out inputs = .ok (i, next)) : Made next
  | other {pool next : Pool} {number : Int64} {opcode : Opcode} {out : Option ValueId}
    {inputs : List ValueId} {i : InstrId} (h : pool.Made) (hopcode : opcode.isBinop = false)
    (hinputs : ∀ v ∈ inputs, v < pool.values.size)
    (hadd : pool.addInstr { number, opcode, out, inputs } = .ok (i, next)) : Made next

/-- The references between values and instructions fit together, and arithmetic has two operands. -/
structure Linked (pool : Pool) : Prop extends Referenced pool where
  operands : ∀ i, (pool.instr i).opcode.isBinop = true →
    ∃ left right, (pool.instr i).inputs = [left, right]

variable {pool next : Pool} {i : InstrId} {v : ValueId}

namespace Linked

theorem empty : Linked .empty where
  toReferenced := .empty
  operands i hi := by
    rw [instr_of_le (Nat.zero_le i)] at hi
    cases hi

/-- An instruction with two operands where it needs them keeps the pool linked. -/
theorem addInstr (h : pool.Linked) {instr : Instruction}
    (hinputs : ∀ v ∈ instr.inputs, v < pool.values.size)
    (hoperands : instr.opcode.isBinop = true → ∃ left right, instr.inputs = [left, right])
    (hadd : pool.addInstr instr = .ok (i, next)) : next.Linked := by
  refine ⟨h.toReferenced.addInstr hinputs hadd, fun j hj => ?_⟩
  rw [instr_push (addInstr_spec hadd).2.1] at hj ⊢
  by_cases heq : j = pool.instrs.size
  · rw [if_pos heq] at hj ⊢
    exact hoperands hj
  · rw [if_neg heq] at hj ⊢
    exact h.operands j hj

end Linked

/-- Pools that are made instruction by instruction are linked. -/
theorem Made.linked (h : pool.Made) : pool.Linked := by
  induction h with
  | empty => exact .empty
  | value _ hdefinition huses ih =>
    exact ⟨ih.toReferenced.addValue hdefinition huses, ih.operands⟩
  | changed _ hdefinition huses ih =>
    exact ⟨ih.toReferenced.changed hdefinition huses, ih.operands⟩
  | const _ hadd ih => exact ih.addInstr (by simp) (by simp [Opcode.isBinop]) hadd
  | binop _ hleft hright hadd ih =>
    rw [addBinop] at hadd
    split at hadd
    · exact ih.addInstr (by simp [hleft, hright]) (fun _ => ⟨_, _, rfl⟩) hadd
    · cases hadd
  | invoke _ hinputs hadd ih =>
    rw [addInvoke] at hadd
    split at hadd
    · next hinvoke =>
      refine ih.addInstr hinputs (fun hbinop => absurd hbinop ?_) hadd
      rcases (Bool.or_eq_true _ _).mp hinvoke with h | h <;>
        simp [of_decide_eq_true h, Opcode.isBinop]
    · cases hadd
  | other _ hopcode hinputs hadd ih =>
    exact ih.addInstr hinputs (by simp [hopcode]) hadd

/-! ## What an instruction can hold -/

/-- No test of a list succeeds if and only if each fails. -/
theorem anyM_eq_false_iff {α : Type} {p : α → Except Fault Bool} {xs : List α} :
    xs.anyM p = .ok false ↔ ∀ x ∈ xs, p x = .ok false := by
  induction xs with
  | nil => simp [List.anyM, pure, Except.pure]
  | cons x xs ih =>
    rw [List.anyM, List.forall_mem_cons]
    cases hx : p x with
    | error fault => simp [bind, Except.bind]
    | ok found => cases found <;> simp [bind, Except.bind, pure, Except.pure, ih]

/-- A value fits in the literal operand of an instruction if the operand is an integer that some
`const` makes, and small enough. -/
theorem fitsInLiteral_iff {instr : Instruction} :
    pool.fitsInLiteral instr v = .ok true ↔ instr.numeric = some .int ∧
      ∃ constant n, pool.constant? v = some constant ∧ constant.literal = some (.int n) ∧
        instr.opcode.Holds n := by
  rw [fitsInLiteral]
  by_cases hnumeric : instr.numeric = some .int
  · rw [if_pos hnumeric]
    cases hconstant : pool.constant? v with
    | none => simp
    | some constant =>
      cases hliteral : constant.literal with
      | none => simp [Literal.fitsInBits, hnumeric, hliteral]
      | some literal =>
        cases literal with
        | int n => simp [hnumeric, hliteral, Instruction.fitsInBits_iff]
        | _ => simp [Literal.fitsInBits, hnumeric, hliteral]
  · simp [hnumeric]

/-- Which operand an instruction does not need in a register. -/
theorem needsInRegister_eq_false_iff :
    pool.needsInRegister i v = .ok false ↔ (pool.instr i).opcode.isBinop = true ∧
      ∃ left right rest, (pool.instr i).inputs = left :: right :: rest ∧
        ((pool.instr i).opcode = .sub ∧ v = left ∧ v ≠ right ∧ pool.isConstant right = false ∨
          (pool.instr i).opcode ≠ .sub ∧ v ≠ left) ∧
        pool.fitsInLiteral (pool.instr i) v = .ok true := by
  obtain ⟨fits, hfits⟩ := pool.exists_fitsInLiteral (pool.instr i) v
  have hnot : (do return !(← pool.fitsInLiteral (pool.instr i) v) : Except Fault Bool) = .ok false ↔
      pool.fitsInLiteral (pool.instr i) v = .ok true := by
    rw [hfits]
    cases fits <;> simp [bind, Except.bind, pure, Except.pure]
  rw [needsInRegister]
  by_cases hbinop : (pool.instr i).opcode.isBinop = true
  · simp only [hbinop, if_true, true_and]
    rcases hinputs : (pool.instr i).inputs with _ | ⟨left, _ | ⟨right, rest⟩⟩
    · simp
    · simp
    · simp only [List.cons.injEq]
      by_cases hsub : (pool.instr i).opcode = .sub
      · by_cases hleft : v = left ∧ v ≠ right ∧ pool.isConstant right = false
        · rw [if_pos hsub, if_pos hleft, hnot]
          constructor
          · exact fun h => ⟨left, right, rest, ⟨rfl, rfl, rfl⟩, .inl ⟨hsub, hleft⟩, h⟩
          · rintro ⟨_, _, _, _, _, h⟩
            exact h
        · simp [hsub, hleft]
      · by_cases hleft : v = left
        · simp [hsub, hleft]
        · rw [if_neg hsub, if_neg hleft, hnot]
          constructor
          · exact fun h => ⟨left, right, rest, ⟨rfl, rfl, rfl⟩, .inr ⟨hsub, hleft⟩, h⟩
          · rintro ⟨_, _, _, _, _, h⟩
            exact h
  · simp [hbinop]

/-! ## Readers of a constant -/

/-- The instruction `i` holds the value `v` as a literal: it is arithmetic on integers, `v` is made
by a `const` with a small enough integer, and `v` is the operand that may be a literal, the other
one being in a register. -/
structure HoldsLiteral (pool : Pool) (i : InstrId) (v : ValueId) : Prop where
  binop : (pool.instr i).opcode.isBinop = true
  numeric : (pool.instr i).numeric = some .int
  literal : ∃ made n, (pool.value v).definition = some made ∧ (pool.instr made).out = some v ∧
    (pool.instr made).opcode = .const ∧ (pool.instr made).literal = some (.int n) ∧
    (pool.instr i).opcode.Holds n
  operands : ∃ other, other ≠ v ∧ pool.needsRegister other = .ok true ∧
    ((pool.instr i).opcode ≠ .sub ∧ (pool.instr i).inputs = [other, v] ∨
      (pool.instr i).opcode = .sub ∧ (pool.instr i).inputs = [v, other] ∧
        pool.isConstant other = false)

/-- What is not a constant needs a register. -/
theorem needsRegister_of_not_constant (h : pool.isConstant v = false) :
    pool.needsRegister v = .ok true := by
  rw [needsRegister, h]
  rfl

/-- A constant that an instruction holds is not needed in a register there. -/
theorem HoldsLiteral.needsInRegister (h : pool.HoldsLiteral i v) :
    pool.needsInRegister i v = .ok false := by
  obtain ⟨made, n, hdefinition, -, hconst, hliteral, hfits⟩ := h.literal
  have hconstant : pool.constant? v = some ⟨made, (pool.instr made).literal⟩ := by
    simp [constant?, hdefinition, hconst]
  have hholds : pool.fitsInLiteral (pool.instr i) v = .ok true :=
    fitsInLiteral_iff.mpr ⟨h.numeric, _, n, hconstant, hliteral, hfits⟩
  obtain ⟨other, hne, -, ⟨hsub, hinputs⟩ | ⟨hsub, hinputs, hother⟩⟩ := h.operands
  · exact needsInRegister_eq_false_iff.mpr
      ⟨h.binop, other, v, [], hinputs, .inr ⟨hsub, hne.symm⟩, hholds⟩
  · exact needsInRegister_eq_false_iff.mpr
      ⟨h.binop, v, other, [], hinputs, .inl ⟨hsub, rfl, hne.symm, hother⟩, hholds⟩

namespace Linked

/-- Whether a value needs a register can be told in a pool that is linked. -/
theorem exists_needsRegister (h : pool.Linked) (v : ValueId) :
    ∃ needed, pool.needsRegister v = .ok needed := by
  rw [needsRegister]
  split
  · refine exists_anyM fun i _ => exists_needsInRegister fun hbinop => ?_
    obtain ⟨left, right, hinputs⟩ := h.operands i hbinop
    simp [hinputs]
  · exact ⟨true, rfl⟩

/-- The left operand is in a register, unless something is subtracted from it. -/
theorem needsRegister_left (h : pool.Linked) {left right : ValueId}
    (hbinop : (pool.instr i).opcode.isBinop = true) (hsub : (pool.instr i).opcode ≠ .sub)
    (hinputs : (pool.instr i).inputs = [left, right]) : pool.needsRegister left = .ok true := by
  have hmem : left ∈ (pool.instr i).inputs := by simp [hinputs]
  have huse : i ∈ (pool.value left).uses := (h.uses left (h.inputs i left hmem) i).mpr hmem
  have hneeded : pool.needsInRegister i left = .ok true := by
    simp [needsInRegister, hbinop, hinputs, hsub]
  cases hconstant : pool.isConstant left with
  | false => exact needsRegister_of_not_constant hconstant
  | true =>
    obtain ⟨needed, hall⟩ := h.exists_needsRegister left
    rw [needsRegister, if_pos hconstant] at hall ⊢
    rw [hall, eq_true_of_anyM hall huse hneeded]

/-- What a reader does not need in a register it holds as a literal. -/
theorem holdsLiteral (h : pool.Linked) (hv : v ∈ (pool.instr i).inputs)
    (hneeds : pool.needsInRegister i v = .ok false) : pool.HoldsLiteral i v := by
  obtain ⟨hbinop, left, right, rest, hinputs, hside, hfits⟩ :=
    needsInRegister_eq_false_iff.mp hneeds
  obtain ⟨hnumeric, constant, n, hconstant, hliteral, hholds⟩ := fitsInLiteral_iff.mp hfits
  obtain ⟨hdefinition, hconst, hmade⟩ := constant?_eq_some hconstant
  obtain ⟨_, _, htwo⟩ := h.operands i hbinop
  obtain rfl : rest = [] := by
    rw [hinputs] at htwo
    simp_all
  refine ⟨hbinop, hnumeric, ⟨constant.definition, n, hdefinition, h.definitions v _ hdefinition,
    hconst, hmade.trans hliteral, hholds⟩, ?_⟩
  obtain ⟨hsub, rfl, hne, hright⟩ | ⟨hsub, hne⟩ := hside
  · exact ⟨right, hne.symm, needsRegister_of_not_constant hright, .inr ⟨hsub, hinputs, hright⟩⟩
  · obtain rfl : v = right := by
      rw [hinputs] at hv
      simpa [hne] using hv
    exact ⟨left, Ne.symm hne, h.needsRegister_left hbinop hsub hinputs, .inl ⟨hsub, hinputs⟩⟩

end Linked

/-- **Values without registers are literals of all their readers.** In a pool made instruction by
instruction it is always known whether a value needs a register. It needs none exactly if it is a
constant and every instruction that reads it holds it as a literal. -/
theorem needsRegister_iff_holdsLiteral {pool : Pool} (hmade : pool.Made) (v : ValueId) :
    (∃ needed, pool.needsRegister v = .ok needed) ∧
    (pool.needsRegister v = .ok false ↔ pool.isConstant v = true ∧
      ∀ i, v ∈ (pool.instr i).inputs → pool.HoldsLiteral i v) := by
  have hlinked := hmade.linked
  refine ⟨hlinked.exists_needsRegister v, fun hneeds => ?_, fun ⟨hconstant, hreaders⟩ => ?_⟩
  · have hconstant : pool.isConstant v = true :=
      Option.isSome_iff_exists.mpr (exists_constant hneeds)
    rw [needsRegister, if_pos hconstant, anyM_eq_false_iff] at hneeds
    refine ⟨hconstant, fun i hi => hlinked.holdsLiteral hi (hneeds i ?_)⟩
    exact (hlinked.uses v (hlinked.inputs i v hi) i).mpr hi
  · rw [needsRegister, if_pos hconstant, anyM_eq_false_iff]
    intro i hi
    refine (hreaders i ?_).needsInRegister
    by_cases hv : v < pool.values.size
    · exact (hlinked.uses v hv i).mp hi
    · rw [value_of_le (Nat.le_of_not_lt hv)] at hi
      cases hi

/-- A value about which only its number is known. -/
def blank (number : Int64) : Value := { number, name := "", type := .single }

/-- The value 1 is the constant 100, from which the value 0 is subtracted, and by which it is
shifted. -/
def scaled : Pool where
  values := #[
    { blank 0 with uses := [1, 2] },
    { blank 1 with definition := some 0, uses := [1, 2] },
    { blank 2 with definition := some 1 },
    { blank 3 with definition := some 2 }]
  instrs := #[
    { number := 2, opcode := .const, literal := some (.int 100), out := some 1 },
    { number := 4, opcode := .sub, numeric := some .int, out := some 2, inputs := [1, 0] },
    { number := 6, opcode := .shl, numeric := some .int, out := some 3, inputs := [0, 1] }]

theorem needsRegister_iff_holdsLiteral_scaled :
    scaled.Made ∧ scaled.needsRegister 1 = .ok false ∧
      scaled.HoldsLiteral 1 1 ∧ scaled.HoldsLiteral 2 1 := by
  have hvalues : Made ⟨#[blank 0, blank 1, blank 2, blank 3], #[]⟩ :=
    @Made.value ⟨#[blank 0, blank 1, blank 2], #[]⟩ (blank 3)
      (@Made.value ⟨#[blank 0, blank 1], #[]⟩ (blank 2)
        (@Made.value ⟨#[blank 0], #[]⟩ (blank 1)
          (@Made.value .empty (blank 0) .empty rfl rfl) rfl rfl) rfl rfl) rfl rfl
  have hconst := Made.const hvalues
    (rfl : addConst _ 2 (some 1) (some (.int 100)) = .ok (0, _))
  have hsub := Made.binop hconst (by decide) (by decide)
    (rfl : addBinop _ 4 .sub (some .int) (some 2) 1 0 = .ok (1, _))
  have hmade : scaled.Made := Made.binop hsub (by decide) (by decide)
    (rfl : addBinop _ 6 .shl (some .int) (some 3) 0 1 = .ok (2, scaled))
  have hfree : scaled.needsRegister 1 = .ok false := by decide
  obtain ⟨-, hreaders⟩ := (needsRegister_iff_holdsLiteral hmade 1).2.mp hfree
  exact ⟨hmade, hfree, hreaders 1 (by decide), hreaders 2 (by decide)⟩

end Pool
end RegisterAllocation
