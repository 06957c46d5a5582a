import RegisterAllocation.Proofs.Building

/-!
# References in units

Values and instructions are made and added one by one, and some of these requests are refused.
`CodeUnit.perform` says what a request leaves behind, and `CodeUnit.performAll` goes on with it
whatever comes of it.

As long as requests refer to what has been made before and numbers of values are not negative, the
unit stays coherent (`CodeUnit.performAll_crossReferenced`): its values are sorted by number, so
that they are found by bisection, its instructions are in order, and definitions and uses are those
of the instructions that have been made. Requests that are refused do no harm, since only an
argument whose number is taken leaves something behind.
-/

namespace RegisterAllocation

/-- Bisection finds where a condition stops to hold. -/
theorem bisect_eq {p : Nat → Bool} {low high boundary : Nat} (hlow : low ≤ boundary)
    (hhigh : boundary ≤ high) (hp : ∀ i, low ≤ i → i < high → (p i = true ↔ i < boundary)) :
    bisect p low high = boundary := by
  fun_induction bisect p low high with
  | case1 low high hlt middle hmiddle ih =>
    have hbelow := (hp middle (by omega) (by omega)).mp hmiddle
    exact ih hbelow hhigh fun i hi => hp i (by omega)
  | case2 low high hlt middle hmiddle ih =>
    have habove := mt (hp middle (by omega) (by omega)).mpr hmiddle
    exact ih hlow (by omega) fun i hi hi' => hp i hi (by omega)
  | case3 low high hge => omega

section Keys

variable {α : Type} {key : α → Int64}

/-- Between words that are not negative no difference wraps. -/
theorem toInt_sub_lt_of_nonneg {x y : α} (hy : 0 ≤ key y) :
    (key x).toInt - (key y).toInt < 2 ^ 63 := by
  have hx := Int64.toInt_lt (key x)
  have hy := Int64.le_iff_toInt_le.mp hy
  rw [Int64.toInt_zero] at hy
  omega

/-- Sorting by distinct keys that are not negative gives ascending keys. -/
theorem sortByKey_strict {xs : List α} (hnonneg : ∀ x ∈ xs, 0 ≤ key x)
    (hdistinct : xs.Pairwise (key · ≠ key ·)) : (sortByKey key xs).Pairwise (key · < key ·) := by
  have hclose : ∀ x ∈ xs, ∀ y ∈ xs, (key x).toInt - (key y).toInt < 2 ^ 63 :=
    fun x _ y hy => toInt_sub_lt_of_nonneg (hnonneg y hy)
  have hkeys : keysClose key xs = true := by simpa [keysClose] using hclose
  have heq : sortByKey key xs = stableSortByKey key xs := by
    rw [sortByKey, stableSortByKey, if_pos hkeys, if_pos hkeys]
  have hne := (stableSortByKey_perm hclose).pairwise_iff (fun h => h.symm) |>.mpr hdistinct
  rw [heq]
  exact ((stableSortByKey_ordered hclose).and hne).imp fun h => Int64.lt_of_le_of_ne h.1 h.2

end Keys

/-! ## Requests -/

/-- A request for an instruction. -/
inductive InstrRequest where
  | const (number : Int64) (out : Option ValueId) (literal : Option Literal)
  | binop (number : Int64) (opcode : Opcode) (numeric : Option NumericType) (out : Option ValueId)
    (left right : ValueId)
  | invoke (number : Int64) (opcode : Opcode) (method : String) (out : Option ValueId)
    (inputs : List ValueId)
  | plain (number : Int64) (opcode : Opcode) (out : Option ValueId) (inputs : List ValueId)

namespace InstrRequest

/-- The instruction that is asked for. -/
def instr : InstrRequest → Instruction
  | const number out literal => { number, opcode := .const, literal, out }
  | binop number opcode numeric out left right =>
    { number, opcode, numeric, out, inputs := [left, right] }
  | invoke number opcode method out inputs => { number, opcode, method, out, inputs }
  | plain number opcode out inputs => { number, opcode, out, inputs }

/-- Makes the instruction. -/
def make (pool : Pool) : InstrRequest → Except Fault (InstrId × Pool)
  | const number out literal => pool.addConst number out literal
  | binop number opcode numeric out left right =>
    pool.addBinop number opcode numeric out left right
  | invoke number opcode method out inputs => pool.addInvoke number opcode method out inputs
  | plain number opcode out inputs => pool.addInstr { number, opcode, out, inputs }

/-- The operation is one that such a request can have. -/
def Fits : InstrRequest → Prop
  | binop _ opcode _ _ _ _ => opcode.isBinop = true
  | invoke _ opcode _ _ _ => opcode = .invoke ∨ opcode = .invokeRange
  | _ => True

/-- An instruction is made if it fits its kind, and otherwise refused. -/
theorem make_eq (pool : Pool) (request : InstrRequest) :
    request.Fits ∧ request.make pool = pool.addInstr request.instr ∨
      ¬ request.Fits ∧ ∃ fault, request.make pool = .error fault := by
  cases request with
  | const => exact .inl ⟨trivial, rfl⟩
  | binop number opcode =>
    by_cases hopcode : opcode.isBinop = true
    · exact .inl ⟨hopcode, if_pos hopcode⟩
    · exact .inr ⟨hopcode, _, if_neg hopcode⟩
  | invoke number opcode =>
    by_cases hopcode : opcode = .invoke ∨ opcode = .invokeRange
    · exact .inl ⟨hopcode, if_pos (by simpa using hopcode)⟩
    · exact .inr ⟨hopcode, _, if_neg (by simpa using hopcode)⟩
  | plain => exact .inl ⟨trivial, rfl⟩

/-- Making an instruction is adding it. -/
theorem addInstr_of_make {pool next : Pool} {i : InstrId} {request : InstrRequest}
    (h : request.make pool = .ok (i, next)) : pool.addInstr request.instr = .ok (i, next) := by
  obtain ⟨-, hmake⟩ | ⟨-, fault, hmake⟩ := make_eq pool request
  · rw [← hmake, h]
  · rw [h] at hmake
    cases hmake

end InstrRequest

/-- A request to make something or to add it to a unit. -/
inductive Request where
  | newValue (number : Int64) (name : String) (type : MoveType)
  | newInstr (request : InstrRequest)
  | addValue (v : ValueId)
  | addArgument (v : ValueId)
  | addInstr (i : InstrId)

namespace Request

def made? : Request → Option Instruction
  | newInstr request => some request.instr
  | _ => none

def value? : Request → Option ValueId
  | addValue v | addArgument v => some v
  | _ => none

def instr? : Request → Option InstrId
  | addInstr i => some i
  | _ => none

/-- The requests that a unit refuses: an operation of the wrong kind, a second definition, a number
that is taken, and an instruction that does not come after all others. -/
def Refused (u : CodeUnit) : Request → Prop
  | newValue _ _ _ => False
  | newInstr request => ¬ request.Fits ∨ ∃ v ∈ request.instr.out, (u.value v).definition ≠ none
  | addValue v | addArgument v => ∃ w ∈ u.values, (u.value w).number = (u.value v).number
  | addInstr i => (u.instr i).number ≤ 0 ∨ ∃ j ∈ u.instrs, (u.instr i).number ≤ (u.instr j).number

/-- A request refers to what has been made, and values get numbers that are not negative. -/
def Legal (u : CodeUnit) : Request → Prop
  | newValue number _ _ => 0 ≤ number
  | newInstr request => (∀ v ∈ request.instr.out, v < u.pool.values.size) ∧
    ∀ v ∈ request.instr.inputs, v < u.pool.values.size
  | addValue v | addArgument v => v < u.pool.values.size
  | addInstr i => i < u.pool.instrs.size

end Request

namespace CodeUnit

variable {u next added : CodeUnit} {request : Request} {requests log : List Request} {v : ValueId}
  {i : InstrId}

/-- The unit that a request leaves behind, and why it was refused. -/
def perform (u : CodeUnit) : Request → CodeUnit × Option Fault
  | .newValue number name type =>
    ({ u with pool := (u.pool.addValue { number, name, type }).2 }, none)
  | .newInstr request =>
    match request.make u.pool with
    | .ok (_, pool) => ({ u with pool }, none)
    | .error fault => (u, some fault)
  | .addValue v =>
    match u.addValue v with
    | .ok added => (added, none)
    | .error fault => (u, some fault)
  | .addArgument v => u.addArgument v
  | .addInstr i =>
    match u.addInstr i with
    | .ok added => (added, none)
    | .error fault => (u, some fault)

/-- The unit that requests leave behind one after another. -/
def performAll (u : CodeUnit) : List Request → CodeUnit
  | [] => u
  | request :: requests => performAll (u.perform request).1 requests

/-- Those requests that are not refused. -/
def accepted (u : CodeUnit) : List Request → List Request
  | [] => []
  | request :: requests =>
    if (u.perform request).2.isNone then request :: accepted (u.perform request).1 requests
    else accepted (u.perform request).1 requests

/-- Each request is legal when its turn comes. -/
def AllLegal (u : CodeUnit) : List Request → Prop
  | [] => True
  | request :: requests => request.Legal u ∧ AllLegal (u.perform request).1 requests

instance decidableLegal (u : CodeUnit) : (request : Request) → Decidable (request.Legal u)
  | .newValue number _ _ => inferInstanceAs (Decidable (0 ≤ number))
  | .newInstr request =>
    inferInstanceAs (Decidable ((∀ v ∈ request.instr.out, v < u.pool.values.size) ∧
      ∀ v ∈ request.instr.inputs, v < u.pool.values.size))
  | .addValue v | .addArgument v => inferInstanceAs (Decidable (v < u.pool.values.size))
  | .addInstr i => inferInstanceAs (Decidable (i < u.pool.instrs.size))

instance decidableAllLegal (u : CodeUnit) : (requests : List Request) →
    Decidable (u.AllLegal requests)
  | [] => .isTrue trivial
  | _ :: requests => @instDecidableAnd _ _ _ (decidableAllLegal _ requests)

/-- What a request can do to a unit. -/
inductive Step (u : CodeUnit) : Request → CodeUnit → Option Fault → Prop
  | refused (request : Request) (fault : Fault) : Step u request u (some fault)
  | newValue (number : Int64) (name : String) (type : MoveType) :
    Step u (.newValue number name type)
      { u with pool := (u.pool.addValue { number, name, type }).2 } none
  | newInstr {request : InstrRequest} {i : InstrId} {pool : Pool}
    (hadd : u.pool.addInstr request.instr = .ok (i, pool)) :
    Step u (.newInstr request) { u with pool } none
  | addValue {v : ValueId} {added : CodeUnit} (hadd : u.addValue v = .ok added) :
    Step u (.addValue v) added none
  | addArgument {v : ValueId} {added : CodeUnit}
      (hadd : (u.markArgument v).addValue v = .ok added) :
    Step u (.addArgument v) added none
  | markArgument (v : ValueId) (fault : Fault) :
    Step u (.addArgument v) (u.markArgument v) (some fault)
  | addInstr {i : InstrId} {added : CodeUnit} (hadd : u.addInstr i = .ok added) :
    Step u (.addInstr i) added none

/-- What a request does is one of the steps. -/
theorem step_perform (u : CodeUnit) (request : Request) :
    Step u request (u.perform request).1 (u.perform request).2 := by
  cases request with
  | newValue number name type => exact .newValue number name type
  | newInstr request =>
    rw [perform]
    split
    · next hmake => exact .newInstr (InstrRequest.addInstr_of_make hmake)
    · exact .refused _ _
  | addValue v =>
    rw [perform]
    split
    · next hadd => exact .addValue hadd
    · exact .refused _ _
  | addArgument v =>
    rw [perform, addArgument]
    split
    · next hadd => exact .addArgument hadd
    · exact .markArgument v _
  | addInstr i =>
    rw [perform]
    split
    · next hadd => exact .addInstr hadd
    · exact .refused _ _

/-! ## Refusals -/

/-- An instruction is refused if and only if its output is defined already. -/
theorem newInstr_eq_error_iff {instr : Instruction} :
    (∃ fault, u.pool.addInstr instr = .error fault) ↔
      ∃ v ∈ instr.out, (u.value v).definition ≠ none := by
  simp only [value, Pool.addInstr]
  cases hout : instr.out with
  | none => simp [Pool.setDefinition, bind, Except.bind, pure, Except.pure]
  | some v =>
    cases hdefinition : (u.pool.value v).definition <;>
      simp [Pool.setDefinition, hdefinition, bind, Except.bind, pure, Except.pure]

/-- A value is refused if and only if its number is taken. -/
theorem addValue_eq_error_iff : (∃ fault, u.addValue v = .error fault) ↔
    ∃ w ∈ u.values, (u.value w).number = (u.value v).number := by
  rw [addValue]
  split
  · next htaken => simpa using htaken
  · next hfree => simpa using hfree

/-! ## Definitions -/

/-- Only values that there are have a definition. -/
theorem lt_size_of_definition (h : (u.value v).definition = some i) : v < u.pool.values.size := by
  by_contra hge
  rw [value, Pool.value_of_le (Nat.not_lt.mp hge)] at h
  cases h

/-- A part of a value that does not tell arguments apart stays when one is marked. -/
theorem field_markArgument {α : Type} (field : Value → α)
    (hfield : ∀ value, field { value with isArgument := true } = field value) (v w : ValueId) :
    field ((u.markArgument v).value w) = field (u.value w) :=
  Pool.field_modifyValue field hfield

/-- A definition is never replaced. -/
theorem definition_step {fault : Option Fault} (hstep : Step u request next fault)
    (h : (u.value v).definition = some i) : (next.value v).definition = some i := by
  have hmarked : ∀ w, ((u.markArgument w).value v).definition = some i := fun w =>
    (field_markArgument Value.definition (fun _ => rfl) w v).trans h
  cases hstep with
  | refused => exact h
  | newValue =>
    exact (congrArg Value.definition (Pool.value_push_of_lt (lt_size_of_definition h))).trans h
  | newInstr hadd => exact (Pool.definition_addInstr hadd).2 v i h
  | addValue hadd =>
    obtain ⟨values, -, rfl⟩ := addValue_spec hadd
    exact h
  | addArgument hadd =>
    obtain ⟨values, -, rfl⟩ := addValue_spec hadd
    exact hmarked _
  | markArgument w => exact hmarked w
  | addInstr hadd =>
    obtain ⟨rfl, -, -⟩ := addInstr_last hadd
    exact h

/-- A definition stays for good. -/
theorem definition_performAll (h : (u.value v).definition = some i) :
    ((u.performAll requests).value v).definition = some i := by
  induction requests generalizing u with
  | nil => exact h
  | cons request requests ih => exact ih (definition_step (step_perform u request) h)

/-- Requests can be performed in two parts. -/
theorem performAll_append (earlier later : List Request) :
    u.performAll (earlier ++ later) = (u.performAll earlier).performAll later := by
  induction earlier generalizing u with
  | nil => rfl
  | cons request earlier ih => exact ih

/-! ## What has been accepted -/

/-- Instructions have been made, and values and instructions added, as accepted requests said. -/
structure Logged (u : CodeUnit) (log : List Request) : Prop where
  made : u.pool.instrs.toList = log.filterMap Request.made?
  values : u.values.Perm (log.filterMap Request.value?)
  instrs : u.instrs = log.filterMap Request.instr?

theorem logged_empty (name : String) : Logged { name } [] := ⟨rfl, .nil, rfl⟩

/-- A request that is accepted is logged with what it has made and listed. -/
theorem Logged.accept (h : u.Logged log)
    (hmade : next.pool.instrs.toList = u.pool.instrs.toList ++ request.made?.toList)
    (hvalues : next.values.Perm (u.values ++ request.value?.toList))
    (hinstrs : next.instrs = u.instrs ++ request.instr?.toList) :
    next.Logged (log ++ [request]) := by
  have hone : ∀ {α : Type} (f : Request → Option α),
      [request].filterMap f = (f request).toList := by
    intro α f
    cases hf : f request <;> simp [hf]
  constructor
  · rw [hmade, h.made, List.filterMap_append, hone]
  · rw [List.filterMap_append, hone]
    exact hvalues.trans (h.values.append_right _)
  · rw [hinstrs, h.instrs, List.filterMap_append, hone]

/-- One step keeps the log in agreement with the unit. -/
theorem Logged.step {fault : Option Fault} (h : u.Logged log) (hstep : Step u request next fault) :
    next.Logged (log ++ if fault.isNone then [request] else []) := by
  cases hstep with
  | refused => simpa using h
  | newValue =>
    exact h.accept (List.append_nil _).symm (by simp [Request.value?]) (by simp [Request.instr?])
  | newInstr hadd =>
    have hinstrs := (Pool.addInstr_spec hadd).2.1
    exact h.accept (by simp [hinstrs, Request.made?]) (by simp [Request.value?])
      (by simp [Request.instr?])
  | addValue hadd =>
    obtain ⟨values, hperm, rfl⟩ := addValue_spec hadd
    exact h.accept (by simp [Request.made?]) hperm (by simp [Request.instr?])
  | addArgument hadd =>
    obtain ⟨values, hperm, rfl⟩ := addValue_spec hadd
    exact h.accept (List.append_nil _).symm hperm (List.append_nil _).symm
  | markArgument =>
    rw [Option.isNone_some, if_neg Bool.false_ne_true, List.append_nil]
    exact ⟨h.made, h.values, h.instrs⟩
  | addInstr hadd =>
    obtain ⟨rfl, -, -⟩ := addInstr_last hadd
    exact h.accept (by simp [Request.made?]) (by simp [Request.value?]) rfl

/-- Any number of requests keeps the log in agreement with the unit. -/
theorem Logged.performAll (h : u.Logged log) :
    (u.performAll requests).Logged (log ++ u.accepted requests) := by
  induction requests generalizing u log with
  | nil => simpa [accepted, CodeUnit.performAll] using h
  | cons request requests ih =>
    have hrest := ih (h.step (step_perform u request))
    rw [List.append_assoc] at hrest
    rw [CodeUnit.performAll, accepted]
    split at hrest
    · next hnone => simpa [hnone] using hrest
    · next hsome => simpa [hsome] using hrest

/-! ## Coherent units -/

/-- The references of a unit fit together and its lists are in order. -/
structure Coherent (u : CodeUnit) : Prop where
  references : u.pool.Referenced
  outputs : ∀ i < u.pool.instrs.size, ∀ v ∈ (u.instr i).out, (u.value v).definition = some i
  nonneg : ∀ v < u.pool.values.size, 0 ≤ (u.value v).number
  values : ∀ v ∈ u.values, v < u.pool.values.size
  sorted : u.values.Pairwise fun v w => (u.value v).number < (u.value w).number
  instrs : ∀ i ∈ u.instrs, i < u.pool.instrs.size
  positive : ∀ i ∈ u.instrs, 0 < (u.instr i).number
  increasing : u.instrs.Pairwise fun i j => (u.instr i).number < (u.instr j).number

namespace Coherent

theorem empty (name : String) : Coherent { name } where
  references := .empty
  outputs i hi := absurd hi (Nat.not_lt_zero i)
  nonneg v hv := absurd hv (Nat.not_lt_zero v)
  values _ hv := absurd hv List.not_mem_nil
  sorted := .nil
  instrs _ hi := absurd hi List.not_mem_nil
  positive _ hi := absurd hi List.not_mem_nil
  increasing := .nil

/-- Where the pool grows and what has been made keeps its number. -/
theorem of_pool (h : u.Coherent) (hreferences : next.pool.Referenced)
    (houtputs : ∀ i < next.pool.instrs.size, ∀ v ∈ (next.instr i).out,
      (next.value v).definition = some i)
    (hnonneg : ∀ v < next.pool.values.size, 0 ≤ (next.value v).number)
    (hvalues : next.values = u.values) (hinstrs : next.instrs = u.instrs)
    (hvalue : ∀ v < u.pool.values.size, v < next.pool.values.size ∧
      (next.value v).number = (u.value v).number)
    (hinstr : ∀ i < u.pool.instrs.size, i < next.pool.instrs.size ∧
      (next.instr i).number = (u.instr i).number) : next.Coherent := by
  have hnumber : ∀ v ∈ u.values, (next.value v).number = (u.value v).number :=
    fun v hv => (hvalue v (h.values v hv)).2
  have hposition : ∀ i ∈ u.instrs, (next.instr i).number = (u.instr i).number :=
    fun i hi => (hinstr i (h.instrs i hi)).2
  refine ⟨hreferences, houtputs, hnonneg, ?_, ?_, ?_, ?_, ?_⟩
  · rw [hvalues]
    exact fun v hv => (hvalue v (h.values v hv)).1
  · rw [hvalues]
    refine h.sorted.imp_of_mem fun {v w} hv hw hlt => ?_
    rwa [hnumber v hv, hnumber w hw]
  · rw [hinstrs]
    exact fun i hi => (hinstr i (h.instrs i hi)).1
  · rw [hinstrs]
    intro i hi
    rw [hposition i hi]
    exact h.positive i hi
  · rw [hinstrs]
    refine h.increasing.imp_of_mem fun {i j} hi hj hlt => ?_
    rwa [hposition i hi, hposition j hj]

/-- A new value keeps the references coherent. -/
theorem newValue (h : u.Coherent) {number : Int64} {name : String} {type : MoveType}
    (hnumber : 0 ≤ number) :
    Coherent { u with pool := (u.pool.addValue { number, name, type }).2 } := by
  have hsize : (u.pool.addValue { number, name, type }).2.values.size = u.pool.values.size + 1 := by
    simp [Pool.addValue]
  refine h.of_pool (h.references.addValue rfl rfl) ?_ ?_ rfl rfl ?_ fun i hi => ⟨hi, rfl⟩
  · intro i hi v hv
    exact definition_step (.newValue number name type) (h.outputs i hi v hv)
  · intro v hv
    rw [hsize] at hv
    rw [value, Pool.value_push]
    split
    · exact hnumber
    · next hne => exact h.nonneg v (Nat.lt_of_le_of_ne (Nat.le_of_lt_succ hv) hne)
  · intro v hv
    exact ⟨hsize ▸ Nat.lt_succ_of_lt hv, congrArg Value.number (Pool.value_push_of_lt hv)⟩

/-- A new instruction keeps the references coherent. -/
theorem newInstr (h : u.Coherent) {instr : Instruction} {pool : Pool}
    (hout : ∀ v ∈ instr.out, v < u.pool.values.size)
    (hinputs : ∀ v ∈ instr.inputs, v < u.pool.values.size)
    (hadd : u.pool.addInstr instr = .ok (i, pool)) : Coherent { u with pool } := by
  have hnumber : ∀ v, (pool.value v).number = (u.value v).number := fun v =>
    Pool.field_addInstr Value.number (fun _ _ => rfl) (fun _ _ => rfl) hadd
  obtain ⟨-, hinstrs, hsize, -, -⟩ := Pool.addInstr_spec hadd
  refine h.of_pool (h.references.addInstr hinputs hadd)
    (Pool.outputs_addInstr h.outputs hout hadd) ?_ rfl rfl ?_ ?_
  · intro v hv
    rw [value, hnumber]
    exact h.nonneg v (hsize ▸ hv)
  · exact fun v hv => ⟨hsize ▸ hv, hnumber v⟩
  · intro j hj
    refine ⟨?_, ?_⟩
    · simp only [hinstrs, Array.size_push]
      exact Nat.lt_succ_of_lt hj
    · rw [CodeUnit.instr, Pool.instr_push hinstrs, if_neg (Nat.ne_of_lt hj)]
      rfl

/-- Marking an argument keeps the references coherent. -/
theorem markArgument (h : u.Coherent) (v : ValueId) : (u.markArgument v).Coherent := by
  have hnumber := field_markArgument (u := u) Value.number (fun _ => rfl) v
  have hsize : (u.markArgument v).pool.values.size = u.pool.values.size := Pool.size_modifyValue
  refine h.of_pool (h.references.changed (fun _ => rfl) fun _ => rfl) ?_ ?_ rfl rfl ?_
    fun i hi => ⟨hi, rfl⟩
  · intro i hi w hw
    rw [field_markArgument Value.definition fun _ => rfl]
    exact h.outputs i hi w hw
  · intro w hw
    rw [hnumber]
    exact h.nonneg w (hsize ▸ hw)
  · exact fun w hw => ⟨hsize ▸ hw, hnumber w⟩

/-- Listing a value keeps the references coherent. -/
theorem addValue (h : u.Coherent) (hv : v < u.pool.values.size) (hadd : u.addValue v = .ok added) :
    added.Coherent := by
  rw [CodeUnit.addValue] at hadd
  split at hadd
  · cases hadd
  · next hfree =>
    cases hadd
    have hvalues : ∀ w ∈ u.values ++ [v], w < u.pool.values.size := by
      simpa [or_imp, forall_and] using ⟨h.values, hv⟩
    have hdistinct : (u.values ++ [v]).Pairwise fun w w' =>
        (u.value w).number ≠ (u.value w').number := by
      refine List.pairwise_append.mpr ⟨h.sorted.imp Int64.ne_of_lt, List.pairwise_singleton _ _, ?_⟩
      simpa using hfree
    have hperm := sortByKey_perm (fun w => (u.value w).number) (u.values ++ [v])
    exact ⟨h.references, h.outputs, h.nonneg, fun w hw => hvalues w (hperm.mem_iff.mp hw),
      sortByKey_strict (fun w hw => h.nonneg w (hvalues w hw)) hdistinct, h.instrs, h.positive,
      h.increasing⟩

/-- Listing an instruction keeps the references coherent. -/
theorem addInstr (h : u.Coherent) (hi : i < u.pool.instrs.size) (hadd : u.addInstr i = .ok added) :
    added.Coherent := by
  obtain ⟨hpositive, hincreasing⟩ := addInstr_ordered h.positive h.increasing hadd
  obtain ⟨rfl, -, -⟩ := addInstr_last hadd
  refine ⟨h.references, h.outputs, h.nonneg, h.values, h.sorted, ?_, hpositive, hincreasing⟩
  simpa [or_imp, forall_and] using ⟨h.instrs, hi⟩

/-- Every legal step keeps the references coherent. -/
theorem step {fault : Option Fault} (h : u.Coherent) (hlegal : request.Legal u)
    (hstep : Step u request next fault) : next.Coherent := by
  cases hstep with
  | refused => exact h
  | newValue => exact h.newValue hlegal
  | newInstr hadd => exact h.newInstr hlegal.1 hlegal.2 hadd
  | addValue hadd => exact h.addValue hlegal hadd
  | addArgument hadd =>
    refine (h.markArgument _).addValue ?_ hadd
    rw [CodeUnit.markArgument, Pool.size_modifyValue]
    exact hlegal
  | markArgument v => exact h.markArgument v
  | addInstr hadd => exact h.addInstr hlegal hadd

/-- Legal requests keep the references coherent. -/
theorem performAll (h : u.Coherent) (hlegal : u.AllLegal requests) :
    (u.performAll requests).Coherent := by
  induction requests generalizing u with
  | nil => exact h
  | cons request requests ih => exact ih (h.step hlegal.1 (step_perform u request)) hlegal.2

/-- Bisection finds the value with a number. Where the number is negative differences may wrap, but
then there is no such value. -/
theorem findValue?_eq_some_iff (h : u.Coherent) {number : Int64} :
    u.findValue? number = some v ↔ v ∈ u.values ∧ (u.value v).number = number := by
  constructor
  · intro hfound
    obtain ⟨w, hw, hfound⟩ := Option.bind_eq_some_iff.mp hfound
    obtain ⟨hnumber, rfl⟩ := (Option.ite_none_right_eq_some.mp hfound).imp id Option.some.inj
    exact ⟨List.mem_of_getElem? hw, hnumber⟩
  · rintro ⟨hv, rfl⟩
    obtain ⟨k, hk, rfl⟩ := List.mem_iff_getElem.mp hv
    have hnonneg : ∀ j (hj : j < u.values.length), 0 ≤ (u.value u.values[j]).number :=
      fun j hj => h.nonneg _ (h.values _ (List.getElem_mem hj))
    have hsorted := List.pairwise_iff_getElem.mp h.sorted
    have hbelow : ∀ i < u.values.length,
        decide ((u.value (u.values.getD i 0)).number - (u.value u.values[k]).number < 0) = true ↔
          i < k := by
      intro i hi
      have hkey : keyBefore (fun w => (u.value w).number) u.values[i] u.values[k] = _ :=
        keyBefore_eq (toInt_sub_lt_of_nonneg (hnonneg k hk)) (toInt_sub_lt_of_nonneg (hnonneg i hi))
      rw [keyBefore] at hkey
      rw [List.getD_eq_getElem?_getD, List.getElem?_eq_getElem hi, Option.getD_some, hkey,
        decide_eq_true_iff]
      obtain hlt | rfl | hlt := Nat.lt_trichotomy i k
      · exact iff_of_true (hsorted i k hi hk hlt) hlt
      · exact iff_of_false Int64.lt_irrefl (Nat.lt_irrefl i)
      · exact iff_of_false (Int64.lt_asymm (hsorted k i hk hi hlt)) (Nat.lt_asymm hlt)
    have hbisect := bisect_eq (Nat.zero_le k) (Nat.le_of_lt hk) fun i _ => hbelow i
    simp only [findValue?, hbisect, List.getElem?_eq_getElem hk]
    simp

/-- An instruction is refused if and only if its number is not positive or not above those
before. -/
theorem addInstr_eq_error_iff (h : u.Coherent) : (∃ fault, u.addInstr i = .error fault) ↔
    (u.instr i).number ≤ 0 ∨ ∃ j ∈ u.instrs, (u.instr i).number ≤ (u.instr j).number := by
  cases hadd : u.addInstr i with
  | error fault =>
    refine iff_of_true ⟨fault, rfl⟩ ?_
    simp only [CodeUnit.addInstr] at hadd
    split at hadd
    · next last hlast =>
      split at hadd
      · next hle => exact .inr ⟨last, List.mem_of_getLast? hlast, hle⟩
      · cases hadd
    · split at hadd
      · next hle => exact .inl hle
      · cases hadd
  | ok added =>
    obtain ⟨hpositive, hincreasing⟩ := addInstr_ordered h.positive h.increasing hadd
    obtain ⟨rfl, -, -⟩ := addInstr_last hadd
    refine iff_of_false (by simp) ?_
    rintro (hle | ⟨j, hj, hle⟩)
    · exact Int64.not_le.mpr (hpositive i (by simp)) hle
    · exact Int64.not_le.mpr ((List.pairwise_append.mp hincreasing).2.2 j hj i (by simp)) hle

/-- It depends on the unit alone what is refused. -/
theorem refused_iff (h : u.Coherent) :
    (∃ fault, (u.perform request).2 = some fault) ↔ request.Refused u := by
  cases request with
  | newValue => simp [perform, Request.Refused]
  | newInstr request =>
    rw [Request.Refused, ← newInstr_eq_error_iff]
    obtain ⟨hfits, hmake⟩ | ⟨hfits, fault, hmake⟩ := request.make_eq u.pool
    · cases hadd : u.pool.addInstr request.instr <;> simp [perform, hmake, hadd, hfits]
    · simp [perform, hmake, hfits]
  | addValue v =>
    rw [Request.Refused, ← addValue_eq_error_iff]
    cases hadd : u.addValue v <;> simp [perform, hadd]
  | addArgument v =>
    have hnumber := field_markArgument (u := u) Value.number (fun _ => rfl) v
    have hmarked := @addValue_eq_error_iff (u.markArgument v) v
    simp only [hnumber] at hmarked
    refine Iff.trans ?_ hmarked
    cases hadd : (u.markArgument v).addValue v <;> simp [perform, CodeUnit.addArgument, hadd]
  | addInstr i =>
    rw [Request.Refused, ← h.addInstr_eq_error_iff]
    cases hadd : u.addInstr i <;> simp [perform, hadd]

end Coherent

/-- The references of a unit are those of the instructions that have been made, and its lists are in
order. -/
structure CrossReferenced (u : CodeUnit) (made : List Instruction) : Prop where
  sorted : u.values.Pairwise fun v w => (u.value v).number < (u.value w).number
  found : ∀ number v, u.findValue? number = some v ↔ v ∈ u.values ∧ (u.value v).number = number
  positive : ∀ i ∈ u.instrs, 0 < (u.instr i).number
  increasing : u.instrs.Pairwise fun i j => (u.instr i).number < (u.instr j).number
  definition : ∀ v i, (u.value v).definition = some i ↔
    ∃ instr, made[i]? = some instr ∧ instr.out = some v
  nodup : ∀ v, (u.value v).uses.Nodup
  uses : ∀ v i, i ∈ (u.value v).uses ↔ ∃ instr, made[i]? = some instr ∧ v ∈ instr.inputs

/-- The instructions of a pool are found by their ids. -/
theorem getElem?_instrs {instr : Instruction} :
    u.pool.instrs.toList[i]? = some instr ↔ i < u.pool.instrs.size ∧ u.instr i = instr := by
  by_cases hi : i < u.pool.instrs.size
  · simp [CodeUnit.instr, Pool.instr, Array.getD_eq_getD_getElem?, hi]
  · simp [hi]

/-- An instruction with a property that the default lacks has been made. -/
theorem exists_made_iff {p : Instruction → Prop} (hdefault : ¬ p default) :
    (∃ instr, u.pool.instrs.toList[i]? = some instr ∧ p instr) ↔ p (u.instr i) := by
  constructor
  · rintro ⟨instr, hinstr, hp⟩
    exact (getElem?_instrs.mp hinstr).2 ▸ hp
  · intro hp
    refine ⟨_, getElem?_instrs.mpr ⟨?_, rfl⟩, hp⟩
    by_contra hge
    rw [CodeUnit.instr, Pool.instr_of_le (Nat.not_lt.mp hge)] at hp
    exact hdefault hp

/-- Coherent references are complete cross-references. -/
theorem Coherent.crossReferenced (h : u.Coherent) :
    u.CrossReferenced u.pool.instrs.toList where
  sorted := h.sorted
  found _ _ := h.findValue?_eq_some_iff
  positive := h.positive
  increasing := h.increasing
  definition v i := by
    constructor
    · intro hdefinition
      exact (exists_made_iff nofun).mpr (h.references.definitions v i hdefinition)
    · rintro ⟨instr, hinstr, hout⟩
      obtain ⟨hi, rfl⟩ := getElem?_instrs.mp hinstr
      exact h.outputs i hi v hout
  nodup := h.references.nodup
  uses v i := by
    have hmade : (∃ instr, u.pool.instrs.toList[i]? = some instr ∧ v ∈ instr.inputs) ↔
      v ∈ (u.instr i).inputs := exists_made_iff List.not_mem_nil
    rw [hmade]
    by_cases hv : v < u.pool.values.size
    · exact h.references.uses v hv i
    · rw [value, Pool.value_of_le (Nat.not_lt.mp hv)]
      exact iff_of_false List.not_mem_nil fun hmem => hv (h.references.inputs i v hmem)

/-- **References stay coherent.** Starting with an empty unit, legal requests make and add what
those of them that are accepted say. Values stay sorted and can be found by their numbers,
instructions are in order, and definitions and uses are those of the instructions made. A definition
is never replaced. The request that comes next is refused exactly for one of the reasons in
`Request.Refused`. -/
theorem performAll_crossReferenced {name : String} (hlegal : AllLegal { name } requests)
    (hu : performAll { name } requests = u) (hlog : accepted { name } requests = log) :
    u.Logged log ∧ u.CrossReferenced (log.filterMap Request.made?) ∧
      (∀ earlier later, requests = earlier ++ later → ∀ v i,
        ((performAll { name } earlier).value v).definition = some i →
          (u.value v).definition = some i) ∧
      ∀ request, (∃ fault, (u.perform request).2 = some fault) ↔ request.Refused u := by
  have hlogged : u.Logged log := by
    rw [← hu, ← hlog]
    exact (logged_empty name).performAll
  have hcoherent : u.Coherent := hu ▸ (Coherent.empty name).performAll hlegal
  refine ⟨hlogged, hlogged.made ▸ hcoherent.crossReferenced, ?_, fun _ => hcoherent.refused_iff⟩
  rintro earlier later rfl v i hdefinition
  rw [← hu, performAll_append]
  exact definition_performAll hdefinition

/-- The number of the third value is taken, the second instruction would define a value again, and
the last one to be added comes too late. -/
def refusals : List Request :=
  [.newValue 7 "a" .single, .newValue 3 "b" .single, .newValue 3 "c" .wide, .addValue 0,
    .addArgument 1, .addArgument 2, .newInstr (.const 2 (some 0) (some (.int 5))),
    .newInstr (.binop 4 .add (some .int) (some 0) 1 1),
    .newInstr (.binop 4 .add (some .int) none 1 1), .addInstr 1, .addInstr 0]

theorem performAll_crossReferenced_refusals : AllLegal { name := "f" } refusals ∧
    ∃ u log, performAll { name := "f" } refusals = u ∧ accepted { name := "f" } refusals = log ∧
      log.length = 8 ∧ u.values = [1, 0] ∧ u.findValue? 7 = some 0 ∧ u.instrs = [1] ∧
      (u.value 1).uses = [1] ∧ u.Logged log ∧ u.CrossReferenced (log.filterMap Request.made?) := by
  have hlegal : AllLegal { name := "f" } refusals := by decide
  obtain ⟨hlogged, hreferenced, -⟩ := performAll_crossReferenced hlegal rfl rfl
  exact ⟨hlegal, _, _, rfl, rfl, by decide, by decide, (hreferenced.found 7 0).mpr (by decide),
    by decide, by decide, hlogged, hreferenced⟩

end CodeUnit
end RegisterAllocation
