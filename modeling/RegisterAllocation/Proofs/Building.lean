import RegisterAllocation.Proofs.Basic
import RegisterAllocation.Proofs.Quicksort

/-!
# Building units

`CodeUnit.Built` says what a step of building a unit can do: it adds a value, an instruction or a
copy, or it changes what is known about a value. Units that are built in this way are consistent
(`CodeUnit.Built.consistent`): the values of the unit are those of its pool, arguments, inputs and
outputs are among them, the inputs of an instruction know that it uses them, and constants have
literals.

In a consistent unit it can always be told whether a value needs a register
(`CodeUnit.Consistent.needsRegister`), and what to print for a constant
(`CodeUnit.Consistent.exists_text`).
-/

namespace RegisterAllocation

namespace Pool

variable {pool next : Pool} {v w : ValueId} {i j : InstrId}

/-! ## Values -/

/-- A value that is added gets the next id, and no other changes. -/
theorem value_push {value : Value} :
    (pool.addValue value).2.value v = if v = pool.values.size then value else pool.value v := by
  simp only [Pool.value, addValue, Array.getD_eq_getD_getElem?, Array.getElem?_push]
  split <;> rfl

theorem value_push_of_lt {value : Value} (h : v < pool.values.size) :
    (pool.addValue value).2.value v = pool.value v := by
  rw [value_push, if_neg (Nat.ne_of_lt h)]

/-- A change of one value leaves the others alone. -/
theorem value_modifyValue {change : Value → Value} :
    (pool.modifyValue v change).value w =
      if v = w ∧ w < pool.values.size then change (pool.value w) else pool.value w := by
  simp only [Pool.value, modifyValue, Array.getD_eq_getD_getElem?, Array.getElem?_modify]
  by_cases hw : w < pool.values.size
  · by_cases heq : v = w <;> simp [hw, heq]
  · simp [hw]

theorem size_modifyValue {change : Value → Value} :
    (pool.modifyValue v change).values.size = pool.values.size := by
  simp [modifyValue]

/-- A change that leaves a field of a value alone leaves it alone in all values. -/
theorem field_modifyValue {α : Type} (field : Value → α) {change : Value → Value}
    (h : ∀ value, field (change value) = field value) :
    field ((pool.modifyValue v change).value w) = field (pool.value w) := by
  rw [value_modifyValue]
  split
  · exact h _
  · rfl

/-- Setting an interval changes the bounds of one value only. -/
theorem setInterval_spec {start stop : Position} (h : pool.setInterval v start stop = .ok next) :
    start < stop ∧ next.instrs = pool.instrs ∧ next.values.size = pool.values.size ∧
      ∀ w, next.value w = if v = w ∧ w < pool.values.size then { pool.value w with start, stop }
        else pool.value w := by
  obtain ⟨changed, hchanged, h⟩ := bind_eq_ok h
  cases h
  rw [Value.setInterval] at hchanged
  split at hchanged
  · cases hchanged
  next hlt =>
  cases hchanged
  refine ⟨Int64.not_le.mp hlt, rfl, size_modifyValue, fun w => ?_⟩
  rw [value_modifyValue]
  by_cases heq : v = w
  · rw [heq]
  · rw [if_neg fun h => heq h.1, if_neg fun h => heq h.1]

/-- A part of a value that an interval does not concern stays when intervals are set. -/
theorem field_setInterval {α : Type} (field : Value → α) {start stop : Position}
    (hfield : ∀ value start stop, field { value with start, stop } = field value)
    (h : pool.setInterval v start stop = .ok next) :
    field (next.value w) = field (pool.value w) := by
  obtain ⟨-, -, -, hvalue⟩ := setInterval_spec h
  rw [hvalue]
  split
  · exact hfield ..
  · rfl

/-! ## Instructions -/

/-- Setting a definition keeps the uses and touches the definition of the output only. -/
theorem setDefinition_spec {out : Option ValueId} (h : pool.setDefinition i out = .ok next) :
    next.instrs = pool.instrs ∧ next.values.size = pool.values.size ∧
      (∀ v, (next.value v).uses = (pool.value v).uses) ∧
      ∀ v, ∀ j ∈ (next.value v).definition,
        j = i ∧ out = some v ∨ j ∈ (pool.value v).definition := by
  cases out with
  | none =>
    cases h
    exact ⟨rfl, rfl, fun _ => rfl, fun _ _ => .inr⟩
  | some v =>
    rw [setDefinition] at h
    split at h
    · cases h
    · cases h
      refine ⟨rfl, size_modifyValue, fun w => field_modifyValue Value.uses fun _ => rfl, ?_⟩
      intro w j hj
      rw [value_modifyValue] at hj
      split at hj
      · next heq => exact .inl ⟨(Option.some.inj hj).symm, congrArg some heq.1⟩
      · exact .inr hj

theorem definition_addUse (value : Value) : (value.addUse i).definition = value.definition := by
  rw [Value.addUse]
  split
  · rfl
  · rfl

/-- A use that is added is there, and no other gets lost. -/
theorem mem_uses_addUse {value : Value} : j ∈ (value.addUse i).uses ↔ j ∈ value.uses ∨ j = i := by
  rw [Value.addUse]
  split
  · next hmem =>
    have hmem : i ∈ value.uses := by simpa using hmem
    constructor
    · exact .inl
    · rintro (hj | rfl)
      · exact hj
      · exact hmem
  · simp

/-- Recording the uses of inputs forgets none. -/
theorem uses_foldl_addUse (inputs : List ValueId) (pool : Pool) :
    let used := inputs.foldl (fun pool v => pool.modifyValue v (·.addUse i)) pool
    used.instrs = pool.instrs ∧ used.values.size = pool.values.size ∧
      (∀ w, (used.value w).definition = (pool.value w).definition) ∧
      ∀ w < pool.values.size, ∀ j, j ∈ (used.value w).uses ↔
        j ∈ (pool.value w).uses ∨ j = i ∧ w ∈ inputs := by
  induction inputs generalizing pool with
  | nil => simp
  | cons v inputs ih =>
    obtain ⟨hinstrs, hsize, hdefinition, huses⟩ := ih (pool.modifyValue v (·.addUse i))
    rw [size_modifyValue] at hsize huses
    refine ⟨hinstrs, hsize, fun w => (hdefinition w).trans ?_, fun w hw j => ?_⟩
    · exact field_modifyValue Value.definition definition_addUse
    rw [List.foldl_cons, huses w hw, value_modifyValue, List.mem_cons]
    by_cases heq : v = w
    · rw [if_pos ⟨heq, hw⟩, mem_uses_addUse]
      grind
    · rw [if_neg fun h => heq h.1]
      grind

/-- An instruction that is added gets the next id, and no other changes. -/
theorem instr_push {instr : Instruction} (h : next.instrs = pool.instrs.push instr) :
    next.instr j = if j = pool.instrs.size then instr else pool.instr j := by
  simp only [Pool.instr, h, Array.getD_eq_getD_getElem?, Array.getElem?_push]
  split <;> rfl

/-- A constant is made by its definition. -/
theorem constant?_eq_some {constant : Constant} (h : pool.constant? v = some constant) :
    (pool.value v).definition = some constant.definition ∧
      (pool.instr constant.definition).opcode = .const ∧
      (pool.instr constant.definition).literal = constant.literal := by
  obtain ⟨i, hi, h⟩ := Option.bind_eq_some_iff.mp h
  obtain ⟨hconst, rfl⟩ := (Option.ite_none_right_eq_some.mp h).imp id Option.some.inj
  exact ⟨hi, hconst, rfl⟩

/-- Adding an instruction records its uses, and itself as the definition of its output. -/
theorem addInstr_spec {instr : Instruction} (h : pool.addInstr instr = .ok (i, next)) :
    i = pool.instrs.size ∧ next.instrs = pool.instrs.push instr ∧
      next.values.size = pool.values.size ∧
      (∀ w, ∀ j ∈ (next.value w).definition,
        j = i ∧ instr.out = some w ∨ j ∈ (pool.value w).definition) ∧
      ∀ w < pool.values.size, ∀ j,
        j ∈ (next.value w).uses ↔ j ∈ (pool.value w).uses ∨ j = i ∧ w ∈ instr.inputs := by
  obtain ⟨defined, hdefined, h⟩ := bind_eq_ok h
  obtain ⟨hinstrs, hsize, huses, hdefinition⟩ := setDefinition_spec hdefined
  obtain ⟨-, hsize', hdefinition', huses'⟩ :=
    uses_foldl_addUse (i := pool.instrs.size) instr.inputs defined
  cases h
  refine ⟨rfl, rfl, hsize'.trans hsize, fun w j hj => ?_, fun w hw j => ?_⟩
  · exact hdefinition w j (hdefinition' w ▸ hj)
  · exact (huses' w (hsize ▸ hw) j).trans (by rw [huses])

/-- Adding an instruction changes no other field of a value than its definition and its uses. -/
theorem field_addInstr {α : Type} (field : Value → α) {instr : Instruction}
    (hdefinition : ∀ value definition, field { value with definition } = field value)
    (huses : ∀ value uses, field { value with uses } = field value)
    (h : pool.addInstr instr = .ok (i, next)) : field (next.value w) = field (pool.value w) := by
  have hfold : ∀ (inputs : List ValueId) (pool : Pool),
      field ((inputs.foldl (fun pool v => pool.modifyValue v (·.addUse i)) pool).value w) =
        field (pool.value w) := by
    intro inputs
    induction inputs with
    | nil => exact fun pool => rfl
    | cons v inputs ih =>
      intro pool
      refine (ih _).trans (field_modifyValue field fun value => ?_)
      rw [Value.addUse]
      split
      · rfl
      · exact huses value _
  obtain ⟨defined, hdefined, h⟩ := bind_eq_ok h
  cases h
  refine (hfold instr.inputs defined).trans ?_
  match hout : instr.out with
  | none =>
    rw [hout] at hdefined
    cases hdefined
    rfl
  | some v =>
    rw [hout, setDefinition] at hdefined
    split at hdefined
    · cases hdefined
    · cases hdefined
      exact field_modifyValue field fun value => hdefinition value _

/-- An instruction becomes the definition of its output, and nothing else loses its definition. -/
theorem definition_addInstr {instr : Instruction} (h : pool.addInstr instr = .ok (i, next)) :
    (∀ w < pool.values.size, instr.out = some w → (next.value w).definition = some i) ∧
      ∀ w j, (pool.value w).definition = some j → (next.value w).definition = some j := by
  obtain ⟨defined, hdefined, h⟩ := bind_eq_ok h
  obtain ⟨-, -, hkept, -⟩ := uses_foldl_addUse (i := pool.instrs.size) instr.inputs defined
  cases h
  have hdefs : (∀ w < pool.values.size, instr.out = some w →
      (defined.value w).definition = some pool.instrs.size) ∧
      ∀ w j, (pool.value w).definition = some j → (defined.value w).definition = some j := by
    match hout : instr.out with
    | none =>
      rw [hout] at hdefined
      cases hdefined
      simp
    | some v =>
      rw [hout, setDefinition] at hdefined
      split at hdefined
      · cases hdefined
      · next hnone =>
        cases hdefined
        refine ⟨fun w hw heq => ?_, fun w j hj => ?_⟩
        · rw [value_modifyValue, if_pos ⟨Option.some.inj heq, hw⟩]
        · have hne : ¬(v = w ∧ w < pool.values.size) := by
            rintro ⟨rfl, -⟩
            rw [hnone] at hj
            cases hj
          rw [value_modifyValue, if_neg hne, hj]
  exact ⟨fun w hw heq => (hkept w).trans (hdefs.1 w hw heq),
    fun w j hj => (hkept w).trans (hdefs.2 w j hj)⟩

/-- Instructions stay the definitions of their outputs. -/
theorem outputs_addInstr {instr : Instruction}
    (h : ∀ j < pool.instrs.size, ∀ v ∈ (pool.instr j).out, (pool.value v).definition = some j)
    (hout : ∀ v ∈ instr.out, v < pool.values.size) (hadd : pool.addInstr instr = .ok (i, next)) :
    ∀ j < next.instrs.size, ∀ v ∈ (next.instr j).out, (next.value v).definition = some j := by
  obtain ⟨hnew, hkept⟩ := definition_addInstr hadd
  obtain ⟨rfl, hinstrs, -⟩ := addInstr_spec hadd
  intro j hj v hv
  rw [hinstrs, Array.size_push] at hj
  rw [instr_push hinstrs] at hv
  split at hv
  · next heq =>
    rw [heq]
    exact hnew v (hout v hv) hv
  · next hne => exact hkept v j (h j (Nat.lt_of_le_of_ne (Nat.le_of_lt_succ hj) hne) v hv)

/-! ## References -/

/-- Ids that are not given out yet stand for the default instruction. -/
theorem instr_of_le (h : pool.instrs.size ≤ i) : pool.instr i = default := by
  rw [Pool.instr, Array.getD_eq_getD_getElem?, Array.getElem?_eq_none h, Option.getD_none]

/-- Ids that are not given out yet stand for the default value. -/
theorem value_of_le (h : pool.values.size ≤ v) : pool.value v = default := by
  rw [Pool.value, Array.getD_eq_getD_getElem?, Array.getElem?_eq_none h, Option.getD_none]

/-- A use is not listed twice. -/
theorem nodup_uses_addUse {value : Value} (h : value.uses.Nodup) : (value.addUse i).uses.Nodup := by
  rw [Value.addUse]
  split
  · exact h
  · next hnew =>
    rw [← List.concat_eq_append]
    exact h.concat (by simpa using hnew)

/-- No use is recorded twice. -/
theorem nodup_uses_addInstr {instr : Instruction} (h : ∀ w, (pool.value w).uses.Nodup)
    (hadd : pool.addInstr instr = .ok (i, next)) : ∀ w, (next.value w).uses.Nodup := by
  have hfold : ∀ (inputs : List ValueId) (pool : Pool), (∀ w, (pool.value w).uses.Nodup) →
      ∀ w, ((inputs.foldl (fun pool v => pool.modifyValue v (·.addUse i))
        pool).value w).uses.Nodup := by
    intro inputs
    induction inputs with
    | nil => exact fun pool h => h
    | cons v inputs ih =>
      refine fun pool h => ih _ fun w => ?_
      rw [value_modifyValue]
      split
      · exact nodup_uses_addUse (h w)
      · exact h w
  obtain ⟨defined, hdefined, hadd⟩ := bind_eq_ok hadd
  obtain ⟨-, -, huses, -⟩ := setDefinition_spec hdefined
  cases hadd
  exact hfold instr.inputs defined fun w => huses w ▸ h w

/-- The references between values and instructions fit together: the uses of a value are the
instructions that it is an input of, each once, and its definition has it as output. -/
structure Referenced (pool : Pool) : Prop where
  inputs : ∀ i, ∀ v ∈ (pool.instr i).inputs, v < pool.values.size
  uses : ∀ v < pool.values.size, ∀ i, i ∈ (pool.value v).uses ↔ v ∈ (pool.instr i).inputs
  nodup : ∀ v, (pool.value v).uses.Nodup
  definitions : ∀ v, ∀ i ∈ (pool.value v).definition, (pool.instr i).out = some v

namespace Referenced

theorem empty : Referenced .empty where
  inputs i v hv := by
    rw [instr_of_le (Nat.zero_le i)] at hv
    cases hv
  uses v hv := absurd hv (Nat.not_lt_zero v)
  nodup v := .nil
  definitions v i hi := by cases hi

/-- A new value refers to nothing. -/
theorem addValue (h : pool.Referenced) {value : Value} (hdefinition : value.definition = none)
    (huses : value.uses = []) : (pool.addValue value).2.Referenced := by
  have hsize : (pool.addValue value).2.values.size = pool.values.size + 1 := by
    simp [Pool.addValue]
  refine ⟨fun i v hv => ?_, fun v hv i => ?_, fun v => ?_, fun v i hi => ?_⟩
  · rw [hsize]
    exact Nat.lt_succ_of_lt (h.inputs i v hv)
  · rw [hsize] at hv
    rw [value_push]
    split
    · next heq =>
      -- the new value is in no instruction, since inputs were there before
      have hnew : v ∉ (pool.instr i).inputs := fun hmem =>
        Nat.lt_irrefl _ (heq ▸ h.inputs i v hmem)
      rw [huses]
      exact ⟨fun hi => absurd hi List.not_mem_nil, fun hv => absurd hv hnew⟩
    · next hne => exact h.uses v (Nat.lt_of_le_of_ne (Nat.le_of_lt_succ hv) hne) i
  · rw [value_push]
    split
    · simp [huses]
    · exact h.nodup v
  · rw [value_push] at hi
    split at hi
    · rw [hdefinition] at hi
      cases hi
    · exact h.definitions v i hi

/-- A change that keeps definitions and uses keeps the references in order. -/
theorem changed (h : pool.Referenced) {change : Value → Value}
    (hdefinition : ∀ value, (change value).definition = value.definition)
    (huses : ∀ value, (change value).uses = value.uses) :
    (pool.modifyValue v change).Referenced := by
  refine ⟨fun i w hw => ?_, fun w hw i => ?_, fun w => ?_, fun w i hi => ?_⟩
  · rw [size_modifyValue]
    exact h.inputs i w hw
  · rw [size_modifyValue] at hw
    rw [field_modifyValue Value.uses huses]
    exact h.uses w hw i
  · rw [field_modifyValue Value.uses huses]
    exact h.nodup w
  · rw [field_modifyValue Value.definition hdefinition] at hi
    exact h.definitions w i hi

/-- A new instruction is entered with all values that it reads. -/
theorem addInstr (h : pool.Referenced) {instr : Instruction}
    (hinputs : ∀ v ∈ instr.inputs, v < pool.values.size)
    (hadd : pool.addInstr instr = .ok (i, next)) : next.Referenced := by
  have hnodup := nodup_uses_addInstr h.nodup hadd
  obtain ⟨rfl, hinstrs, hsize, hdefinition, huses⟩ := addInstr_spec hadd
  have hinstr : ∀ j, next.instr j = if j = pool.instrs.size then instr else pool.instr j :=
    fun j => instr_push hinstrs
  have hfresh : pool.instr pool.instrs.size = default := instr_of_le (Nat.le_refl _)
  refine ⟨fun j v hv => ?_, fun v hv j => ?_, hnodup, fun v j hj => ?_⟩
  · rw [hinstr] at hv
    rw [hsize]
    split at hv
    · exact hinputs v hv
    · exact h.inputs j v hv
  · rw [hsize] at hv
    rw [huses v hv, h.uses v hv, hinstr]
    split
    · next heq => simp [heq, hfresh, show (default : Instruction).inputs = [] from rfl]
    · next hne => simp [hne]
  · rw [hinstr]
    obtain ⟨rfl, hout⟩ | hj := hdefinition v j hj
    · rw [if_pos rfl, hout]
    · have hout := h.definitions v j hj
      have hne : j ≠ pool.instrs.size := by
        rintro rfl
        rw [hfresh] at hout
        cases hout
      rw [if_neg hne, hout]

end Referenced

end Pool

namespace CodeUnit

variable {u : CodeUnit}

/-- The values of a unit are put in order, and none gets lost. -/
theorem addValue_spec {v : ValueId} {added : CodeUnit} (h : u.addValue v = .ok added) :
    ∃ values, values.Perm (u.values ++ [v]) ∧ added = { u with values } := by
  rw [addValue] at h
  split at h
  · cases h
  · cases h
    exact ⟨_, sortByKey_perm _ _, rfl⟩

/-- An instruction is listed last, and its number is larger than those before it. -/
theorem addInstr_last {i : InstrId} {added : CodeUnit} (h : u.addInstr i = .ok added) :
    added = { u with instrs := u.instrs ++ [i] } ∧ (u.instrs = [] → 0 < (u.instr i).number) ∧
      ∀ last ∈ u.instrs.getLast?, (u.instr last).number < (u.instr i).number := by
  simp only [addInstr] at h
  split at h
  · next last hlast =>
    split at h
    · cases h
    · next hlt =>
      cases h
      refine ⟨rfl, fun hnil => ?_, fun other hother => ?_⟩
      · rw [hnil] at hlast
        cases hlast
      · obtain rfl : last = other := Option.some.inj (hlast.symm.trans hother)
        exact Int64.not_le.mp hlt
  · next hnone =>
    split at h
    · cases h
    · next hpositive =>
      cases h
      exact ⟨rfl, fun _ => Int64.not_le.mp hpositive, by simp [hnone]⟩

/-- The numbers of instructions stay positive and go on increasing. -/
theorem addInstr_ordered {i : InstrId} {added : CodeUnit}
    (hpositive : ∀ j ∈ u.instrs, 0 < (u.instr j).number)
    (hordered : u.instrs.Pairwise fun j k => (u.instr j).number < (u.instr k).number)
    (h : u.addInstr i = .ok added) :
    (∀ j ∈ added.instrs, 0 < (added.instr j).number) ∧
      added.instrs.Pairwise fun j k => (added.instr j).number < (added.instr k).number := by
  obtain ⟨rfl, hfirst, hlast⟩ := addInstr_last h
  have hbelow : ∀ j ∈ u.instrs, (u.instr j).number < (u.instr i).number := by
    intro j hj
    obtain ⟨before, last, hlist⟩ := List.eq_nil_or_concat u.instrs |>.resolve_left
      (List.ne_nil_of_mem hj)
    rw [List.concat_eq_append] at hlist
    rw [hlist] at hj hordered hlast
    have hlt := hlast last (by simp)
    rcases List.mem_append.mp hj with hj | hj
    · exact Int64.lt_trans
        ((List.pairwise_append.mp hordered).2.2 j hj last (List.mem_singleton_self _)) hlt
    · rw [List.mem_singleton.mp hj]
      exact hlt
  have hpositive' : 0 < (u.instr i).number := by
    rcases hinstrs : u.instrs with _ | ⟨j, rest⟩
    · exact hfirst hinstrs
    · have hj : j ∈ u.instrs := by simp [hinstrs]
      exact Int64.lt_trans (hpositive j hj) (hbelow j hj)
  constructor
  · intro j hj
    rcases List.mem_append.mp hj with hj | hj
    · exact hpositive j hj
    · exact List.mem_singleton.mp hj ▸ hpositive'
  · refine List.pairwise_append.mpr ⟨hordered, List.pairwise_singleton _ _, ?_⟩
    intro j hj k hk
    rw [List.mem_singleton.mp hk]
    exact hbelow j hj

theorem addInstr_spec {i : InstrId} {added : CodeUnit} (h : u.addInstr i = .ok added) :
    ∃ instrs, added = { u with instrs } := ⟨_, (addInstr_last h).1⟩

/-- The units that can be made step by step. -/
inductive Built : CodeUnit → Prop
  | empty (name : String) : Built { name }
  | value {u added : CodeUnit} (value : Value) (h : u.Built) (hnew : value.definition = none)
    (hadd : { u with pool := (u.pool.addValue value).2 }.addValue (u.pool.addValue value).1 =
      .ok added) : Built added
  | argument {u : CodeUnit} {v : ValueId} (h : u.Built) (hv : v ∈ u.values) :
    Built (u.markArgument v)
  | made {u : CodeUnit} {instr : Instruction} {i : InstrId} {pool : Pool} (h : u.Built)
    (hinputs : ∀ v ∈ instr.inputs, v ∈ u.values) (hout : ∀ v ∈ instr.out, v ∈ u.values)
    (hoperands : instr.opcode.isBinop = true → 2 ≤ instr.inputs.length)
    (hliteral : instr.opcode = .const → instr.literal.isSome = true)
    (hadd : u.pool.addInstr instr = .ok (i, pool)) : Built { u with pool }
  | listed {u added : CodeUnit} {i : InstrId} (h : u.Built) (hadd : u.addInstr i = .ok added) :
    Built added
  | copy {u : CodeUnit} {copy : Copy} (h : u.Built) (hsource : copy.source ∈ u.values)
    (htarget : copy.target ∈ u.values) : Built (u.addCopy copy)
  | pinned {u : CodeUnit} {v : ValueId} (register : Register) (h : u.Built) :
    Built (u.modifyValue v fun value => { value with fixed := some register })
  | interval {u : CodeUnit} {v : ValueId} {start stop : Position} {pool : Pool} (h : u.Built)
    (hset : u.pool.setInterval v start stop = .ok pool) : Built { u with pool }

/-- The values and the instructions of a unit fit together. -/
structure Consistent (u : CodeUnit) : Prop where
  values : u.values.Perm (List.range u.pool.values.size)
  arguments : ∀ v ∈ u.arguments, v ∈ u.values
  inputs : ∀ i, ∀ v ∈ (u.instr i).inputs, v ∈ u.values
  uses : ∀ i, ∀ v ∈ (u.instr i).inputs, i ∈ (u.value v).uses
  operands : ∀ i, (u.instr i).opcode.isBinop = true → 2 ≤ (u.instr i).inputs.length
  outputs : ∀ i, ∀ v ∈ (u.instr i).out, v ∈ u.values
  definitions : ∀ v, ∀ i ∈ (u.value v).definition, i < u.pool.instrs.size
  literals : ∀ i < u.pool.instrs.size, (u.instr i).opcode = .const →
    (u.instr i).literal.isSome = true

namespace Consistent

/-- All values of a consistent unit are listed. -/
theorem mem_values (h : u.Consistent) {v : ValueId} : v ∈ u.values ↔ v < u.pool.values.size := by
  rw [h.values.mem_iff, List.mem_range]

theorem empty (name : String) : Consistent { name } := by
  have hinputs : ∀ i, (({ name } : CodeUnit).instr i).inputs = [] := fun _ => rfl
  have hout : ∀ i, (({ name } : CodeUnit).instr i).out = none := fun _ => rfl
  have hdefinition : ∀ v, (({ name } : CodeUnit).value v).definition = none := fun _ => rfl
  refine ⟨.refl _, by simp, by simp [hinputs], by simp [hinputs],
    fun i hbinop => ?_, by simp [hout], by simp [hdefinition],
    fun i hi => absurd hi (Nat.not_lt_zero i)⟩
  exact absurd (show Opcode.const.isBinop = true from hbinop) (by decide)

/-- Changes of values that leave their uses and definitions alone. -/
theorem of_links_eq (h : u.Consistent) {pool : Pool} (hinstrs : pool.instrs = u.pool.instrs)
    (hsize : pool.values.size = u.pool.values.size)
    (huses : ∀ v, (pool.value v).uses = (u.value v).uses)
    (hdefinition : ∀ v, (pool.value v).definition = (u.value v).definition) :
    Consistent { u with pool } := by
  have hinstr : ∀ i, ({ u with pool } : CodeUnit).instr i = u.instr i := fun i => by
    simp [CodeUnit.instr, Pool.instr, hinstrs]
  have hcount : pool.instrs.size = u.pool.instrs.size := congrArg Array.size hinstrs
  refine ⟨hsize ▸ h.values, h.arguments, ?_, ?_, ?_, ?_, ?_, ?_⟩
  · exact fun i v hv => h.inputs i v (hinstr i ▸ hv)
  · exact fun i v hv => (huses v).symm ▸ h.uses i v (hinstr i ▸ hv)
  · exact fun i hi => hinstr i ▸ h.operands i (hinstr i ▸ hi)
  · exact fun i v hv => h.outputs i v (hinstr i ▸ hv)
  · exact fun v i hi => hcount.symm ▸ h.definitions v i (hdefinition v ▸ hi)
  · exact fun i hi hconst => hinstr i ▸ h.literals i (hcount ▸ hi) (hinstr i ▸ hconst)

theorem modifyValue (h : u.Consistent) {v : ValueId} {change : Value → Value}
    (huses : ∀ value, (change value).uses = value.uses)
    (hdefinition : ∀ value, (change value).definition = value.definition) :
    (u.modifyValue v change).Consistent :=
  h.of_links_eq rfl Pool.size_modifyValue (fun _ => Pool.field_modifyValue Value.uses huses)
    fun _ => Pool.field_modifyValue Value.definition hdefinition

/-- A new value keeps a unit consistent. -/
theorem addValue (h : u.Consistent) {value : Value} {added : CodeUnit}
    (hnew : value.definition = none)
    (hadd : { u with pool := (u.pool.addValue value).2 }.addValue (u.pool.addValue value).1 =
      .ok added) : added.Consistent := by
  obtain ⟨values, hperm, rfl⟩ := addValue_spec hadd
  have hmem : ∀ v ∈ u.values, v ∈ values := fun v hv =>
    hperm.mem_iff.mpr (List.mem_append_left _ hv)
  refine ⟨hperm.trans ?_, fun v hv => hmem v (h.arguments v hv),
    fun i v hv => hmem v (h.inputs i v hv), ?_, h.operands,
    fun i v hv => hmem v (h.outputs i v hv), fun v i hi => ?_, h.literals⟩
  · have hsize : (u.pool.addValue value).2.values.size = u.pool.values.size + 1 := by
      simp [Pool.addValue]
    dsimp only
    rw [hsize, List.range_succ]
    exact h.values.append_right _
  · intro i v hv
    have hlt := h.mem_values.mp (h.inputs i v hv)
    simpa [CodeUnit.value, Pool.value_push_of_lt hlt] using h.uses i v hv
  · have hvalue : (u.pool.addValue value).2.value v =
        if v = u.pool.values.size then value else u.pool.value v := Pool.value_push
    rw [CodeUnit.value, hvalue] at hi
    split at hi
    · rw [hnew] at hi
      cases hi
    · exact h.definitions v i hi

/-- A new instruction whose values are listed keeps a unit consistent. -/
theorem made (h : u.Consistent) {instr : Instruction} {i : InstrId} {pool : Pool}
    (hinputs : ∀ v ∈ instr.inputs, v ∈ u.values) (hout : ∀ v ∈ instr.out, v ∈ u.values)
    (hoperands : instr.opcode.isBinop = true → 2 ≤ instr.inputs.length)
    (hliteral : instr.opcode = .const → instr.literal.isSome = true)
    (hadd : u.pool.addInstr instr = .ok (i, pool)) : Consistent { u with pool } := by
  obtain ⟨rfl, hinstrs, hsize, hdefinition, huses⟩ := Pool.addInstr_spec hadd
  have hinstr : ∀ j, ({ u with pool } : CodeUnit).instr j =
      if j = u.pool.instrs.size then instr else u.instr j := fun j => Pool.instr_push hinstrs
  have hcount : pool.instrs.size = u.pool.instrs.size + 1 := by simp [hinstrs]
  refine ⟨hsize ▸ h.values, h.arguments, ?_, ?_, ?_, ?_, ?_, ?_⟩
  · intro j v hv
    rw [hinstr] at hv
    split at hv
    · exact hinputs v hv
    · exact h.inputs j v hv
  · intro j v hv
    rw [hinstr] at hv
    split at hv
    · next heq => exact (huses v (h.mem_values.mp (hinputs v hv)) j).mpr (.inr ⟨heq, hv⟩)
    · exact (huses v (h.mem_values.mp (h.inputs j v hv)) j).mpr (.inl (h.uses j v hv))
  · intro j hj
    rw [hinstr] at hj ⊢
    by_cases heq : j = u.pool.instrs.size
    · rw [if_pos heq] at hj ⊢
      exact hoperands hj
    · rw [if_neg heq] at hj ⊢
      exact h.operands j hj
  · intro j v hv
    rw [hinstr] at hv
    split at hv
    · exact hout v hv
    · exact h.outputs j v hv
  · intro v j hj
    change j < pool.instrs.size
    rw [hcount]
    obtain ⟨rfl, -⟩ | hj := hdefinition v j hj
    · exact Nat.lt_succ_self _
    · exact Nat.lt_succ_of_lt (h.definitions v j hj)
  · intro j hj hconst
    rw [hinstr] at hconst ⊢
    by_cases heq : j = u.pool.instrs.size
    · rw [if_pos heq] at hconst ⊢
      exact hliteral hconst
    · rw [if_neg heq] at hconst ⊢
      have hj : j < u.pool.instrs.size + 1 := hcount ▸ hj
      exact h.literals j (by omega) hconst

/-- Every constant has a text. -/
theorem exists_text (h : u.Consistent) {v : ValueId} {constant : Constant}
    (hconstant : u.pool.constant? v = some constant) :
    ∃ literal, constant.literal = some literal ∧ constant.text = .ok literal.text := by
  obtain ⟨hdefinition, hconst, hliteral⟩ := Pool.constant?_eq_some hconstant
  have hsome := h.literals _ (h.definitions v _ hdefinition) hconst
  rw [CodeUnit.instr, hliteral] at hsome
  obtain ⟨literal, hliteral⟩ := Option.isSome_iff_exists.mp hsome
  exact ⟨literal, hliteral, by rw [Constant.text, hliteral]⟩

/-! ## Needing a register -/

end Consistent

end CodeUnit

namespace Pool

variable {pool : Pool}

/-- The bits of an operand are enough to tell whether a literal fits. -/
theorem exists_fitsInBits (literal : Option Literal) (instr : Instruction) :
    ∃ fits, Literal.fitsInBits literal instr.literalBits = .ok fits := by
  have hshift : ¬ instr.literalBits - 1 < 0 := by
    rw [Instruction.literalBits]
    split <;> decide
  unfold Literal.fitsInBits
  split
  · split
    · exact ⟨_, rfl⟩
    · simp only [if_neg hshift]
      exact ⟨_, rfl⟩
  · exact ⟨_, rfl⟩

/-- Whether a value fits into a literal can always be told. -/
theorem exists_fitsInLiteral (pool : Pool) (instr : Instruction) (v : ValueId) :
    ∃ fits, pool.fitsInLiteral instr v = .ok fits := by
  unfold fitsInLiteral
  split
  · split
    · exact exists_fitsInBits _ instr
    · exact ⟨_, rfl⟩
  · exact ⟨_, rfl⟩

/-- Arithmetic with two operands tells of every value whether it is needed in a register. -/
theorem exists_needsInRegister {i : InstrId} {v : ValueId}
    (h : (pool.instr i).opcode.isBinop = true → 2 ≤ (pool.instr i).inputs.length) :
    ∃ needs, pool.needsInRegister i v = .ok needs := by
  obtain ⟨fits, hfits⟩ := pool.exists_fitsInLiteral (pool.instr i) v
  simp only [needsInRegister, hfits]
  by_cases hbinop : (pool.instr i).opcode.isBinop = true
  · rw [if_pos hbinop]
    match hinputs : (pool.instr i).inputs with
    | [] => exact absurd (h hbinop) (by simp [hinputs])
    | [_] => exact absurd (h hbinop) (by simp [hinputs])
    | left :: right :: rest =>
      dsimp only
      split
      · split
        · exact ⟨_, rfl⟩
        · exact ⟨_, rfl⟩
      · split
        · exact ⟨_, rfl⟩
        · exact ⟨_, rfl⟩
  · exact ⟨true, if_neg hbinop⟩

/-- A search in a list succeeds if every test does. -/
theorem exists_anyM {α : Type} {f : α → Except Fault Bool} {xs : List α}
    (h : ∀ x ∈ xs, ∃ b, f x = .ok b) : ∃ b, xs.anyM f = .ok b := by
  induction xs with
  | nil => exact ⟨false, rfl⟩
  | cons x xs ih =>
    obtain ⟨b, hb⟩ := h x List.mem_cons_self
    obtain ⟨rest, hrest⟩ := ih fun y hy => h y (List.mem_cons_of_mem _ hy)
    simp only [List.anyM, hb, bind, Except.bind]
    cases b
    · exact ⟨rest, hrest⟩
    · exact ⟨true, rfl⟩

end Pool

namespace CodeUnit

variable {u : CodeUnit}

/-- It can always be told whether a value needs a register. -/
theorem Consistent.needsRegister (h : u.Consistent) (v : ValueId) :
    ∃ needs, u.pool.needsRegister v = .ok needs := by
  rw [Pool.needsRegister]
  split
  · exact Pool.exists_anyM fun i _ => Pool.exists_needsInRegister (h.operands i)
  · exact ⟨true, rfl⟩

/-- Units that are built step by step are consistent. -/
theorem Built.consistent (h : u.Built) : u.Consistent := by
  induction h with
  | empty name => exact .empty name
  | value value _ hnew hadd ih => exact ih.addValue hnew hadd
  | @argument u v _ hv ih =>
    have hmarked : (u.modifyValue v fun value => { value with isArgument := true }).Consistent :=
      ih.modifyValue (fun _ => rfl) fun _ => rfl
    refine ⟨hmarked.values, fun w hw => ?_, hmarked.inputs, hmarked.uses, hmarked.operands,
      hmarked.outputs, hmarked.definitions, hmarked.literals⟩
    obtain hw | hw := List.mem_append.mp hw
    · exact ih.arguments w hw
    · exact List.mem_singleton.mp hw ▸ hv
  | made _ hinputs hout hoperands hliteral hadd ih =>
    exact ih.made hinputs hout hoperands hliteral hadd
  | listed _ hadd ih =>
    obtain ⟨instrs, rfl⟩ := addInstr_spec hadd
    exact { ih with }
  | copy _ _ _ ih => exact { ih with }
  | pinned register _ ih => exact ih.modifyValue (fun _ => rfl) fun _ => rfl
  | interval _ hset ih =>
    obtain ⟨-, hinstrs, hsize, -⟩ := Pool.setInterval_spec hset
    exact ih.of_links_eq hinstrs hsize
      (fun w => Pool.field_setInterval Value.uses (fun _ _ _ => rfl) hset)
      fun w => Pool.field_setInterval Value.definition (fun _ _ _ => rfl) hset

end CodeUnit
end RegisterAllocation
