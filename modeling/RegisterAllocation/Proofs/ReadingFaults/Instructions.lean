import RegisterAllocation.Proofs.ReadingFaults.Entries

/-!
# Instructions without faults

Reading an instruction never ends in a fault: an entry without an output has been refused, and the
output is defined by no other instruction, since all outputs have different names
(`Draft.defineOutputs_names`). Instructions are listed in order, since an instruction that does not
come after the last one is refused (`Draft.yields_addInstructions`).
-/

namespace RegisterAllocation
namespace Draft

variable {draft next : Draft} {expr entry : SExpr} {names : List String} {positions : List Position}
  {outputs : List String}

/-- The name that an output defines: an output is a definition, or the empty list. -/
def definedName? (out : SExpr) : Option String :=
  match out with
  | .list (_ :: _) _ => some out.head
  | _ => none

theorem definedName?_of_items {out : SExpr} (h : out.items ≠ []) :
    definedName? out = some out.head := by
  cases out with
  | int | symbol => exact absurd rfl h
  | list items line =>
    cases items with
    | nil => exact absurd rfl h
    | cons => rfl
section Sized

variable (hsize : names.length ≤ 2 ^ 64)
include hsize

/-- Finding the output of an instruction is without fault. -/
theorem yields_output (h : draft.Within names positions outputs) (hexpr : expr.symbols ⊆ names) :
    Yields (fun result => draft.Finds names positions outputs result.2 ∧
      ∀ v ∈ result.1, v ∈ result.2.unit.values ∧
        (result.2.unit.value v).name ∈ definedName? expr) (draft.output expr) := by
  refine Yields.and ?_ fun result hresult v hv => ?_
  · unfold output
    split
    · exact .ok h.finds
    · exact (yields_lookup hsize h hexpr).bind fun _ hfound => .ok hfound.1
    · exact .malformed _
  · obtain ⟨hmem, hitems, hname⟩ := (output_spec h.sound hresult).2 v hv
    exact ⟨hmem, hname ▸ definedName?_of_items hitems⟩

/-- Finding the inputs of an instruction is without fault. -/
theorem yields_inputs (h : draft.Within names positions outputs) {exprs : List SExpr}
    (hexprs : ∀ expr ∈ exprs, expr.symbols ⊆ names) :
    Yields (fun inputs => inputs.length = exprs.length ∧ ∀ v ∈ inputs, v ∈ draft.unit.values)
      (draft.inputs exprs) := by
  refine Yields.and ?_ fun inputs hinputs => inputs_spec h.sound hinputs
  induction exprs with
  | nil => exact .ok rfl
  | cons expr exprs ih =>
    obtain ⟨hexpr, hexprs⟩ := List.forall_mem_cons.mp hexprs
    unfold inputs
    split
    · exact .malformed _
    · refine (yields_lookup hsize h hexpr).bind fun _ _ => (ih hexprs).bind fun rest hrest => .ok ?_
      rw [List.length_cons, List.length_cons, hrest]

end Sized
/-- Reading a literal is without fault. -/
theorem yields_literal (expr : SExpr) : Yields (fun _ => True) (literal expr) := by
  unfold literal
  split
  · exact .ok trivial
  · split
    · exact .malformed _
    · exact .ok trivial
  · exact .malformed _

/-- An instruction with the given number has been made, but not listed yet. -/
structure Adds (names : List String) (positions : List Position) (outputs : List String)
    (number : Int64) (draft : Draft) (result : InstrId × Draft) : Prop where
  within : result.2.Within names positions outputs
  id : result.1 = draft.unit.pool.instrs.size
  listed : result.2.unit.instrs = draft.unit.instrs
  made : ∃ instr : Instruction, instr.number = number ∧
    result.2.unit.pool.instrs = draft.unit.pool.instrs.push instr

/-- An instruction with an output that no instruction has had can be kept. -/
theorem yields_keep {defined : Draft} (instr : Instruction) {name? : Option String}
    (hfinds : draft.Finds names positions outputs defined)
    (hout : ∀ v ∈ instr.out, v ∈ defined.unit.values ∧ (defined.unit.value v).name ∈ name?)
    (hfresh : ∀ name ∈ name?, name ∉ outputs)
    (hinputs : ∀ v ∈ instr.inputs, v ∈ defined.unit.values)
    (hoperands : instr.opcode.isBinop = true → 2 ≤ instr.inputs.length)
    (hliteral : instr.opcode = .const → instr.literal.isSome = true) :
    Yields (draft.Adds names positions (outputs ++ name?.toList) instr.number)
      (defined.keep (defined.unit.pool.addInstr instr)) := by
  obtain ⟨h, -, hlisted, hmade⟩ := hfinds
  have hundefined : ∀ v ∈ instr.out, (defined.unit.value v).definition = none := fun v hv => by
    by_contra hsome
    exact hfresh _ (hout v hv).2 (h.defined v (Option.ne_none_iff_isSome.mp hsome))
  obtain ⟨i, pool, hadd⟩ := Pool.exists_addInstr hundefined
  refine (Yields.lift hadd).bind fun _ heq => .ok (heq ▸ ?_)
  obtain ⟨hi, hinstrs, -, hdefinition, -⟩ := Pool.addInstr_spec hadd
  have hinstr : ∀ j < defined.unit.pool.instrs.size, pool.instr j = defined.unit.instr j :=
    fun j hj => (Pool.instr_push hinstrs).trans (if_neg (Nat.ne_of_lt hj))
  refine ⟨?_, hi.trans (congrArg Array.size hmade), hlisted, instr, rfl, hmade ▸ hinstrs⟩
  refine h.of_kept (h.sound.built.made hinputs (fun v hv => (hout v hv).1) hoperands hliteral hadd)
    rfl rfl (fun w => Pool.field_addInstr Value.number (fun _ _ => rfl) (fun _ _ => rfl) hadd)
    (fun w => Pool.field_addInstr Value.name (fun _ _ => rfl) (fun _ _ => rfl) hadd)
    (fun j hj => ?_) (fun j hj => ?_) h.copies fun w hw => ?_
  · dsimp only
    rw [hinstrs, Array.size_push]
    exact Nat.lt_succ_of_lt (h.listed j hj)
  · rw [CodeUnit.instr, hinstr j (h.listed j hj)]
    exact h.instrs j hj
  · obtain ⟨j, hj⟩ := Option.isSome_iff_exists.mp hw
    rcases hdefinition w j hj with ⟨-, heq⟩ | hold
    · exact List.mem_append_right _ (Option.mem_toList.mpr (hout w heq).2)
    · exact List.mem_append_left _ (h.defined w (Option.isSome_of_mem hold))

/-- Adding an operation whose output is new is without fault. -/
theorem yields_addOperation (hsize : names.length ≤ 2 ^ 64)
    (h : draft.Within names positions outputs) (number : Int64) (name : String) (opcode : Opcode)
    (numeric : Option NumericType) {operands : List SExpr}
    (hoperands : ∀ operand ∈ operands, operand.symbols ⊆ names) (name? : Option String)
    (hname : (outputOperand? opcode operands).bind definedName? = name?)
    (hfresh : ∀ name ∈ name?, name ∉ outputs) :
    Yields (draft.Adds names positions (outputs ++ name?.toList) number)
      (draft.addOperation entry number name opcode numeric operands) := by
  unfold addOperation
  split
  · next hconst =>
    subst hconst
    split
    · next out value =>
      obtain rfl : definedName? out = name? := hname
      refine (yields_output hsize h (hoperands out (by simp))).bind ?_
      rintro ⟨out, defined⟩ ⟨hfinds, hout⟩
      refine (yields_literal value).bind fun literal _ => ?_
      exact yields_keep { number, opcode := .const, literal := some literal, out } hfinds hout
        hfresh (by simp) (by simp [Opcode.isBinop]) fun _ => rfl
    · exact .malformed _
  next hconst =>
  split
  · next hbinop =>
    have hdirect : ¬(opcode = .invoke ∨ opcode = .invokeRange) := by
      rintro (rfl | rfl) <;> cases hbinop
    split
    · next out left right =>
      rw [outputOperand?, if_neg hdirect] at hname
      obtain rfl : definedName? out = name? := hname
      have hpair : ∀ expr ∈ [left, right], expr.symbols ⊆ names :=
        fun expr hexpr => hoperands expr (List.mem_cons_of_mem _ hexpr)
      refine (yields_inputs hsize h hpair).bind ?_
      rintro read ⟨hlength, hread⟩
      obtain ⟨first, second, rfl⟩ := List.length_eq_two.mp hlength
      refine (yields_output hsize h (hoperands out (by simp))).bind ?_
      rintro ⟨out, defined⟩ ⟨hfinds, hout⟩
      simp only [Pool.addBinop, if_pos hbinop]
      exact yields_keep { number, opcode, numeric, out, inputs := [first, second] } hfinds hout
        hfresh (fun v hv => hfinds.values (hread v hv)) (by simp) fun heq => absurd heq hconst
    · exact .malformed _
  next hbinop =>
  split
  · next hinvoke =>
    split
    · next method line out exprs =>
      rw [outputOperand?, if_pos hinvoke] at hname
      obtain rfl : definedName? out = name? := hname
      refine (yields_output hsize h (hoperands out (by simp))).bind ?_
      rintro ⟨out, defined⟩ ⟨hfinds, hout⟩
      refine (yields_inputs hsize hfinds.within fun expr hexpr =>
        hoperands expr (by simp [hexpr])).bind ?_
      rintro inputs ⟨-, hinputs⟩
      simp only [Pool.addInvoke, if_pos (show (opcode = .invoke || opcode = .invokeRange) = true by
        simpa using hinvoke)]
      exact yields_keep { number, opcode, method, out, inputs } hfinds hout hfresh hinputs
        (fun heq => absurd heq hbinop) fun heq => absurd heq hconst
    · exact .malformed _
  · next hinvoke =>
    split
    · exact .malformed _
    · next out exprs =>
      rw [outputOperand?, if_neg hinvoke] at hname
      obtain rfl : definedName? out = name? := hname
      split
      · exact .malformed _
      refine (yields_output hsize h (hoperands out (by simp))).bind ?_
      rintro ⟨out, defined⟩ ⟨hfinds, hout⟩
      refine (yields_inputs hsize hfinds.within fun expr hexpr =>
        hoperands expr (by simp [hexpr])).bind ?_
      rintro inputs ⟨-, hinputs⟩
      exact yields_keep { number, opcode, out, inputs } hfinds hout hfresh hinputs
        (fun heq => absurd heq hbinop) fun heq => absurd heq hconst

def outputName? (entry : SExpr) : Option String := (outputOf? entry.items).bind definedName?

/-- Reading an instruction whose output is new is without fault. -/
theorem yields_readInstruction (hsize : names.length ≤ 2 ^ 64)
    (h : draft.Within names positions outputs) (hentry : entry.symbols ⊆ names)
    (hform : (outputOf? entry.items).isSome = true)
    (hfresh : ∀ name ∈ outputName? entry, name ∉ outputs) :
    Yields (fun result => ∃ number ∈ entry.position?,
        draft.Adds names positions (outputs ++ (outputName? entry).toList) number result)
      (draft.readInstruction entry) := by
  unfold readInstruction
  split
  · next number operation operands line =>
    cases number with
    | symbol | list => exact .malformed _
    | int n nLine =>
      change Yields _ (if n ≤ 0 then _ else _)
      split
      · exact .malformed _
      split
      · next name nameLine =>
        split
        · next opcode numeric hname =>
          refine (yields_addOperation hsize h n name opcode numeric
            (fun operand hoperand => SExpr.symbols_of_mem_items hentry ?_) (outputName? _) ?_
            hfresh).mono fun result hresult => ⟨n, rfl, hresult⟩
          · simp [SExpr.items, hoperand]
          · cases operands with
            | nil => cases hform
            | cons third rest =>
              simp only [outputName?, SExpr.items, outputOf?, outputOperand?,
                isPrefixOf_invoke hname, decide_eq_true_eq]
        · exact .malformed _
      · exact .malformed _
  · next hshape =>
    -- An entry that has an output has a number and an operation as well.
    cases entry with
    | int | symbol => cases hform
    | list items line =>
      rcases items with _ | ⟨number, _ | ⟨operation, operands⟩⟩
      · cases hform
      · cases hform
      · exact absurd rfl (hshape number operation operands line)

/-- Listing an instruction keeps the draft within the form. -/
theorem Within.addInstr (h : draft.Within names positions outputs) {i : InstrId} {unit : CodeUnit}
    (hmade : i < draft.unit.pool.instrs.size) (hnumber : (draft.unit.instr i).number ∈ positions)
    (hadd : draft.unit.addInstr i = .ok unit) :
    Within names positions outputs { draft with unit } := by
  have hbuilt := h.sound.built.listed hadd
  obtain ⟨rfl, -, -⟩ := CodeUnit.addInstr_last hadd
  refine h.of_kept hbuilt rfl rfl (fun _ => rfl) (fun _ => rfl) ?_ ?_ h.copies h.defined
  · exact List.forall_mem_append.mpr ⟨h.listed, List.forall_mem_singleton.mpr hmade⟩
  · exact List.forall_mem_append.mpr ⟨h.instrs, List.forall_mem_singleton.mpr hnumber⟩

/-- Adding instructions with different outputs is without fault. -/
theorem yields_addInstructions (hsize : names.length ≤ 2 ^ 64) {last : Int64} {entries : List SExpr}
    (h : draft.Within names positions outputs) (hlast : 0 ≤ last)
    (hbelow : ∀ i ∈ draft.unit.instrs, (draft.unit.instr i).number ≤ last)
    (hsymbols : ∀ entry ∈ entries, entry.symbols ⊆ names)
    (hpositions : ∀ entry ∈ entries, ∀ position ∈ entry.position?, position ∈ positions)
    (hform : ∀ entry ∈ entries, (outputOf? entry.items).isSome = true)
    (hnodup : (outputs ++ entries.filterMap outputName?).Nodup) :
    Yields (Within names positions (outputs ++ entries.filterMap outputName?))
      (draft.addInstructions last entries) := by
  induction entries generalizing draft last outputs with
  | nil =>
    rw [List.filterMap_nil, List.append_nil]
    exact .ok h
  | cons entry entries ih =>
    obtain ⟨hsymbol, hsymbols⟩ := List.forall_mem_cons.mp hsymbols
    obtain ⟨hposition, hpositions⟩ := List.forall_mem_cons.mp hpositions
    obtain ⟨hentry, hform⟩ := List.forall_mem_cons.mp hform
    have hsplit : outputs ++ (entry :: entries).filterMap outputName? =
        (outputs ++ (outputName? entry).toList) ++ entries.filterMap outputName? := by
      cases hname : outputName? entry <;> simp [hname]
    rw [hsplit] at hnodup ⊢
    have hfresh : ∀ name ∈ outputName? entry, name ∉ outputs := fun name hname hmem =>
      List.disjoint_of_nodup_append hnodup.of_append_left hmem (Option.mem_toList.mpr hname)
    refine (yields_readInstruction hsize h hsymbol hentry hfresh).bind
      fun ⟨i, made⟩ ⟨number, hnumber, hwithin, hi, hlisted, instr, heq, hinstrs⟩ => ?_
    dsimp only at hwithin hi hlisted hinstrs ⊢
    have hpush : ∀ j, made.unit.instr j =
        if j = draft.unit.pool.instrs.size then instr else draft.unit.instr j :=
      fun j => Pool.instr_push hinstrs
    have hinstr : (made.unit.instr i).number = number := by rw [hpush, if_pos hi, heq]
    have hold : ∀ j ∈ draft.unit.instrs, made.unit.instr j = draft.unit.instr j :=
      fun j hj => (hpush j).trans (if_neg (Nat.ne_of_lt (h.listed j hj)))
    have hmade : i < made.unit.pool.instrs.size := by
      rw [hinstrs, hi, Array.size_push]
      exact Nat.lt_succ_self _
    split
    · exact .malformed _
    next hlt =>
    have hlt := Int64.not_le.mp hlt
    have hless : ∀ j ∈ made.unit.instrs,
        (made.unit.instr j).number < (made.unit.instr i).number := by
      intro j hj
      rw [hlisted] at hj
      rw [hold j hj]
      exact Int64.lt_of_le_of_lt (hbelow j hj) hlt
    obtain ⟨unit, hadd⟩ := made.unit.exists_addInstr (Int64.lt_of_le_of_lt hlast hlt) hless
    refine (Yields.lift hadd).bind fun _ hunit => hunit ▸ ?_
    have hnext := hwithin.addInstr hmade (hinstr ▸ hposition number hnumber) hadd
    obtain ⟨rfl, -, -⟩ := CodeUnit.addInstr_last hadd
    refine ih hnext (Int64.le_of_lt (Int64.lt_of_le_of_lt hlast hlt)) ?_ hsymbols hpositions hform
      hnodup
    refine List.forall_mem_append.mpr ⟨fun j hj => Int64.le_of_lt (hless j hj), ?_⟩
    exact List.forall_mem_singleton.mpr (Int64.le_refl _)
/-! ## Outputs -/

/-- Defining an output binds a name that was free. -/
theorem defineOutput_name (h : draft.Sound) (hdefine : draft.defineOutput entry = .ok next) :
    (outputOf? entry.items).isSome = true ∧
      ∀ name ∈ outputName? entry, draft.isBound name = false ∧ next.isBound name = true := by
  unfold defineOutput at hdefine
  split at hdefine
  · cases hdefine
  · next first rest line hout =>
    dsimp only at hdefine
    split at hdefine
    · cases hdefine
    next hbound =>
    obtain ⟨⟨v, defined⟩, hdefined, hdefine⟩ := bind_eq_ok hdefine
    cases hdefine
    simp only [outputName?, hout]
    refine ⟨rfl, fun name hname => ?_⟩
    cases hname
    exact ⟨by simpa using hbound, (define_spec h hdefined).2.1⟩
  · next other hother hout =>
    rw [outputName?, hout, Option.bind_some, definedName?]
    · exact ⟨rfl, by simp⟩
    · exact hother

/-- The outputs of instructions have different names. -/
theorem defineOutputs_names (h : draft.Sound) {entries : List SExpr}
    (hdefine : entries.foldlM defineOutput draft = .ok next) :
    (∀ entry ∈ entries, (outputOf? entry.items).isSome = true) ∧
      (entries.filterMap outputName?).Nodup ∧
      ∀ name ∈ entries.filterMap outputName?, draft.isBound name = false := by
  induction entries generalizing draft with
  | nil => exact ⟨by simp, .nil, by simp⟩
  | cons entry entries ih =>
    obtain ⟨middle, hmiddle, hdefine⟩ := bind_eq_ok hdefine
    have hsteps := (defineOutput_spec h hmiddle).1.steps
    obtain ⟨hform, hname⟩ := defineOutput_name h hmiddle
    obtain ⟨hforms, hnodup, hunbound⟩ := ih (hsteps.sound h) hdefine
    have hbefore : ∀ name ∈ entries.filterMap outputName?, draft.isBound name = false := by
      intro name hmem
      by_contra hbound
      have hbound := hsteps.isBound (Bool.not_eq_false _ ▸ hbound)
      rw [hunbound name hmem] at hbound
      cases hbound
    refine ⟨List.forall_mem_cons.mpr ⟨hform, hforms⟩, ?_⟩
    rw [List.filterMap_cons]
    split
    · exact ⟨hnodup, hbefore⟩
    · next name heq =>
      obtain ⟨hfree, hbound⟩ := hname name heq
      refine ⟨List.nodup_cons.mpr ⟨fun hmem => ?_, hnodup⟩,
        List.forall_mem_cons.mpr ⟨hfree, hbefore⟩⟩
      rw [hunbound name hmem] at hbound
      cases hbound

end Draft
end RegisterAllocation
