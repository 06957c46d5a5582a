import RegisterAllocation.Proofs.Reading

/-!
# Units that are read are tidy

What holds of every unit that is read (`CodeUnit.Tidy`): its values are numbered in the order of
their definitions and have different names, everything that is referred to is among them,
instructions are in order, and nothing is defined twice. Each part is kept by every step of reading.
-/

namespace RegisterAllocation

/-! ## Numbers of values -/

/-- Sorting by keys that do not wrap and ascend already changes nothing. -/
theorem sortByKey_range {key : ValueId → Int64} {n : Nat} (hn : n < 2 ^ 63)
    (hkey : ∀ v < n, key v = Int64.ofNat v) : sortByKey key (List.range n) = List.range n := by
  have htoInt : ∀ v < n, (key v).toInt = v := fun v hv => by
    rw [hkey v hv, Int64.toInt_ofNat_of_lt (by omega)]
  have hclose : keysClose key (List.range n) = true := by
    simp only [keysClose, List.all_eq_true, List.mem_range, decide_eq_true_eq]
    intro v hv w hw
    rw [htoInt v hv, htoInt w hw]
    omega
  rw [sortByKey, if_pos hclose]
  refine Sorting.sort_eq_self (List.pairwise_lt_range.imp_of_mem fun {v w} hv hw hlt => ?_)
  have hv := List.mem_range.mp hv
  have hw := List.mem_range.mp hw
  rw [keyBefore, decide_eq_false_iff_not, Int64.not_lt, Int64.le_iff_toInt_le, Int64.toInt_sub,
    htoInt v hv, htoInt w hw, Int.bmod_eq_of_le (by omega) (by omega), Int64.toInt_zero]
  omega

namespace Draft

variable {draft next : Draft}

/-- Values are numbered in the order of their definitions, and each name refers to one of them. -/
structure Numbered (draft : Draft) : Prop where
  numbers : ∀ v ∈ draft.unit.values, (draft.unit.value v).number = Int64.ofNat v
  values : draft.unit.values.length < 2 ^ 63 →
    draft.unit.values = List.range draft.unit.values.length
  names : (draft.bindings.map Prod.fst).Nodup
  bindings : ∀ v ∈ draft.unit.values, ((draft.unit.value v).name, v) ∈ draft.bindings

/-- A name that is not bound does not occur. -/
theorem not_mem_of_lookup {name : String} (h : draft.bindings.lookup name = none) :
    name ∉ draft.bindings.map Prod.fst := by
  intro hmem
  obtain ⟨binding, hbinding, rfl⟩ := List.mem_map.mp hmem
  have hne := List.lookup_eq_none_iff.mp h binding hbinding
  simp at hne

/-- A new value gets the next number. -/
theorem Numbered.addValue (h : draft.Sound) (hnumbered : draft.Numbered) {name : String}
    {type : MoveType} {v : ValueId} (hname : draft.bindings.lookup name = none)
    (hadd : draft.addValue name type = .ok (v, next)) : next.Numbered := by
  have hconsistent := h.built.consistent
  have hsize : draft.unit.values.length = draft.unit.pool.values.size := by
    rw [hconsistent.values.length_eq, List.length_range]
  obtain ⟨hv, rfl⟩ := addValue_spec hadd
  have hmem : ∀ w, w ∈ draft.unit.values ++ [v] → w ∈ draft.unit.values ∨ w = v := by simp
  have hold : ∀ w ∈ draft.unit.values,
      (draft.unit.pool.addValue (draft.newValue name type)).2.value w = draft.unit.value w :=
    fun w hw => Pool.value_push_of_lt (hconsistent.mem_values.mp hw)
  have hnew : (draft.unit.pool.addValue (draft.newValue name type)).2.value v =
      draft.newValue name type := Pool.value_push.trans (if_pos hv)
  have hnumber : ∀ w ∈ draft.unit.values ++ [v],
      ((draft.unit.pool.addValue (draft.newValue name type)).2.value w).number = Int64.ofNat w := by
    intro w hw
    rcases hmem w hw with hw | rfl
    · rw [hold w hw]
      exact hnumbered.numbers w hw
    · rw [hnew, newValue, hsize, hv]
  have hperm := sortByKey_perm (fun w =>
    ((draft.unit.pool.addValue (draft.newValue name type)).2.value w).number)
    (draft.unit.values ++ [v])
  refine ⟨fun w hw => hnumber w (hperm.mem_iff.mp hw), fun hlt => ?_, ?_, fun w hw => ?_⟩
  · have hlength := hperm.length_eq
    rw [List.length_append, List.length_singleton] at hlength
    dsimp only at hlt ⊢
    rw [hlength] at hlt ⊢
    have hrange : draft.unit.values ++ [v] = List.range (draft.unit.values.length + 1) := by
      rw [List.range_succ, ← hnumbered.values (by omega), hsize, hv]
    rw [hrange]
    refine sortByKey_range hlt fun w hw => hnumber w ?_
    rw [hrange]
    exact List.mem_range.mpr hw
  · exact List.nodup_cons.mpr ⟨not_mem_of_lookup hname, hnumbered.names⟩
  · rcases hmem w (hperm.mem_iff.mp hw) with hw | rfl
    · rw [CodeUnit.value, hold w hw]
      exact List.mem_cons_of_mem _ (hnumbered.bindings w hw)
    · rw [CodeUnit.value, hnew]
      exact List.mem_cons_self

/-- A step keeps values numbered. -/
theorem Step.numbered (h : draft.Sound) (hstep : draft.Step next) (hnumbered : draft.Numbered) :
    next.Numbered := by
  rcases hstep.value_or_kept with ⟨name, type, v, hname, hadd⟩ | ⟨hvalues, hbindings⟩
  · exact hnumbered.addValue h hname hadd
  · refine ⟨fun v hv => ?_, ?_, ?_, fun v hv => ?_⟩
    · rw [hvalues] at hv
      rw [hstep.field Value.number (fun _ _ _ _ _ _ _ => rfl) h hv]
      exact hnumbered.numbers v hv
    · rw [hvalues]
      exact hnumbered.values
    · rw [hbindings]
      exact hnumbered.names
    · rw [hvalues] at hv
      rw [hbindings, hstep.name h hv]
      exact hnumbered.bindings v hv

/-- Different values have different names. -/
theorem Numbered.eq_of_name_eq (h : draft.Numbered) {v w : ValueId} (hv : v ∈ draft.unit.values)
    (hw : w ∈ draft.unit.values)
    (heq : (draft.unit.value v).name = (draft.unit.value w).name) : v = w := by
  have hbinding := h.bindings v hv
  rw [heq] at hbinding
  exact congrArg Prod.snd (List.inj_on_of_nodup_map h.names hbinding (h.bindings w hw) rfl)

/-! ## Arguments and fixed registers -/

/-- The arguments are the values that are marked as such, each once. -/
structure Marked (draft : Draft) : Prop where
  marked : ∀ v ∈ draft.unit.values,
    (draft.unit.value v).isArgument = true ↔ v ∈ draft.unit.arguments
  once : draft.unit.arguments.Nodup

/-- Arguments stay marked as long as nothing changes about them. -/
theorem Marked.of_kept (h : draft.Marked) (hvalues : next.unit.values = draft.unit.values)
    (harguments : next.unit.arguments = draft.unit.arguments)
    (hkept : ∀ v, (next.unit.value v).isArgument = (draft.unit.value v).isArgument) :
    next.Marked := by
  constructor
  · intro v hv
    rw [hvalues] at hv
    rw [hkept, harguments]
    exact h.marked v hv
  · rw [harguments]
    exact h.once

/-- A step keeps arguments marked. -/
theorem Step.marked (h : draft.Sound) (hstep : draft.Step next) (hmarked : draft.Marked) :
    next.Marked := by
  have hconsistent := h.built.consistent
  cases hstep with
  | @value name type v _ _ hadd =>
    obtain ⟨hv, rfl⟩ := addValue_spec hadd
    refine ⟨fun w hw => ?_, hmarked.once⟩
    have hw := (sortByKey_perm _ _).mem_iff.mp hw
    rw [CodeUnit.value, Pool.value_push]
    split
    · next heq =>
      have hnot : w ∉ draft.unit.arguments := fun hmem => by
        have hlt := hconsistent.mem_values.mp (hconsistent.arguments w hmem)
        rw [heq] at hlt
        exact Nat.lt_irrefl _ hlt
      simpa [newValue] using hnot
    · next hne =>
      refine hmarked.marked w ?_
      simpa [hv, hne] using hw
  | @argument v hv honce =>
    refine ⟨fun w hw => ?_, ?_⟩
    · have hlt : w < draft.unit.pool.values.size := hconsistent.mem_values.mp hw
      have hvalue : (draft.unit.markArgument v).value w =
          if v = w ∧ w < draft.unit.pool.values.size then
            { draft.unit.value w with isArgument := true } else draft.unit.value w :=
        Pool.value_modifyValue
      rw [hvalue, CodeUnit.markArgument, List.mem_append, List.mem_singleton]
      by_cases heq : v = w
      · simp [heq, hlt]
      · simp [heq, Ne.symm heq, hmarked.marked w hw]
    · rw [CodeUnit.markArgument, ← List.concat_eq_append]
      exact hmarked.once.concat honce
  | made _ _ _ _ _ hadd =>
    exact hmarked.of_kept rfl rfl fun v =>
      Pool.field_addInstr Value.isArgument (fun _ _ => rfl) (fun _ _ => rfl) hadd
  | listed _ hadd =>
    obtain ⟨instrs, rfl⟩ := CodeUnit.addInstr_spec hadd
    exact hmarked.of_kept rfl rfl fun _ => rfl
  | copy => exact hmarked.of_kept rfl rfl fun _ => rfl
  | pinned => exact hmarked.of_kept rfl rfl fun v => Pool.field_modifyValue _ fun _ => rfl
  | interval hset =>
    exact hmarked.of_kept rfl rfl fun v =>
      Pool.field_setInterval Value.isArgument (fun _ _ _ => rfl) hset

/-- No value is fixed to a negative register. -/
def Fixable (draft : Draft) : Prop :=
  ∀ v, ∀ register ∈ (draft.unit.value v).fixed, 0 ≤ register

/-- Fixed registers are not negative as long as nothing changes about them. -/
theorem Fixable.of_kept (h : draft.Fixable)
    (hkept : ∀ v, (next.unit.value v).fixed = (draft.unit.value v).fixed) : next.Fixable := by
  intro v register hregister
  rw [hkept] at hregister
  exact h v register hregister

/-- A step fixes no value to a negative register. -/
theorem Step.fixable (hstep : draft.Step next) (hfixable : draft.Fixable) : next.Fixable := by
  cases hstep with
  | value _ hadd =>
    obtain ⟨-, rfl⟩ := addValue_spec hadd
    intro w register hregister
    rw [CodeUnit.value, Pool.value_push] at hregister
    split at hregister
    · cases hregister
    · exact hfixable w register hregister
  | argument => exact hfixable.of_kept fun v => Pool.field_modifyValue _ fun _ => rfl
  | made _ _ _ _ _ hadd =>
    exact hfixable.of_kept fun v =>
      Pool.field_addInstr Value.fixed (fun _ _ => rfl) (fun _ _ => rfl) hadd
  | listed _ hadd =>
    obtain ⟨instrs, rfl⟩ := CodeUnit.addInstr_spec hadd
    exact hfixable.of_kept fun _ => rfl
  | copy => exact hfixable.of_kept fun _ => rfl
  | pinned hnonneg =>
    intro w register hregister
    rw [CodeUnit.value, CodeUnit.modifyValue, Pool.value_modifyValue] at hregister
    split at hregister
    · cases hregister
      exact hnonneg
    · exact hfixable w register hregister
  | interval hset =>
    exact hfixable.of_kept fun v => Pool.field_setInterval Value.fixed (fun _ _ _ => rfl) hset

/-! ## Instructions and copies -/

/-- The listed instructions are in the order of their numbers, and every instruction is the one
definition of its output, which is no argument. -/
structure Coded (draft : Draft) : Prop where
  listed : ∀ i ∈ draft.unit.instrs, i < draft.unit.pool.instrs.size
  positive : ∀ i ∈ draft.unit.instrs, 0 < (draft.unit.instr i).number
  ordered : draft.unit.instrs.Pairwise fun i j =>
    (draft.unit.instr i).number < (draft.unit.instr j).number
  definitions : ∀ i < draft.unit.pool.instrs.size, ∀ v ∈ (draft.unit.instr i).out,
    (draft.unit.value v).definition = some i
  arguments : ∀ i < draft.unit.pool.instrs.size, ∀ v ∈ (draft.unit.instr i).out,
    v ∉ draft.unit.arguments

/-- Where the instructions are the same and outputs keep their definitions. -/
theorem Coded.of_kept (h : draft.Coded) (hinstrs : next.unit.instrs = draft.unit.instrs)
    (hpool : next.unit.pool.instrs = draft.unit.pool.instrs)
    (hdefinition : ∀ i, ∀ v ∈ (draft.unit.instr i).out,
      (next.unit.value v).definition = (draft.unit.value v).definition)
    (harguments : next.unit.arguments = draft.unit.arguments ∨ draft.unit.pool.instrs = #[]) :
    next.Coded := by
  have hinstr : ∀ i, next.unit.instr i = draft.unit.instr i := fun i => by
    simp [CodeUnit.instr, Pool.instr, hpool]
  constructor
  · rw [hinstrs, hpool]
    exact h.listed
  · simp only [hinstrs, hinstr]
    exact h.positive
  · simp only [hinstrs, hinstr]
    exact h.ordered
  · intro i hi v hv
    rw [hinstr] at hv
    rw [hpool] at hi
    rw [hdefinition i v hv]
    exact h.definitions i hi v hv
  · intro i hi v hv
    rw [hinstr] at hv
    rw [hpool] at hi
    rcases harguments with harguments | hempty
    · rw [harguments]
      exact h.arguments i hi v hv
    · rw [hempty] at hi
      exact absurd hi (Nat.not_lt_zero i)

/-- A new instruction keeps outputs and arguments apart. -/
theorem Coded.made (h : draft.Sound) (hcoded : draft.Coded) {instr : Instruction} {i : InstrId}
    {pool : Pool} (hout : ∀ v ∈ instr.out, v ∈ draft.unit.values)
    (hargument : ∀ v ∈ instr.out, v ∉ draft.unit.arguments)
    (hadd : draft.unit.pool.addInstr instr = .ok (i, pool)) :
    Coded { draft with unit := { draft.unit with pool } } := by
  have hinstrs := (Pool.addInstr_spec hadd).2.1
  have hinstr : ∀ j, ({ draft.unit with pool } : CodeUnit).instr j =
      if j = draft.unit.pool.instrs.size then instr else draft.unit.instr j :=
    fun j => Pool.instr_push hinstrs
  have hold : ∀ j ∈ draft.unit.instrs,
      ({ draft.unit with pool } : CodeUnit).instr j = draft.unit.instr j := fun j hj => by
    rw [hinstr, if_neg (Nat.ne_of_lt (hcoded.listed j hj))]
  have hsize : pool.instrs.size = draft.unit.pool.instrs.size + 1 := by simp [hinstrs]
  constructor
  · intro j hj
    dsimp only
    rw [hsize]
    exact Nat.lt_succ_of_lt (hcoded.listed j hj)
  · intro j hj
    rw [hold j hj]
    exact hcoded.positive j hj
  · refine hcoded.ordered.imp_of_mem fun {j k} hj hk hlt => ?_
    rw [hold j hj, hold k hk]
    exact hlt
  · exact Pool.outputs_addInstr hcoded.definitions
      (fun v hv => h.built.consistent.mem_values.mp (hout v hv)) hadd
  · intro j hj v hv
    dsimp only at hj hv
    rw [hsize] at hj
    rw [hinstr] at hv
    split at hv
    · exact hargument v hv
    · next hne =>
      have hj := Nat.lt_of_le_of_ne (Nat.le_of_lt_succ hj) hne
      exact hcoded.arguments j hj v hv

/-- Listing an instruction keeps the code in order. -/
theorem Coded.addInstr (hcoded : draft.Coded) {i : InstrId} {unit : CodeUnit}
    (hmade : i < draft.unit.pool.instrs.size) (hadd : draft.unit.addInstr i = .ok unit) :
    Coded { draft with unit } := by
  obtain ⟨hpositive, hordered⟩ := CodeUnit.addInstr_ordered hcoded.positive hcoded.ordered hadd
  obtain ⟨rfl, -, -⟩ := CodeUnit.addInstr_last hadd
  refine ⟨fun j hj => ?_, hpositive, hordered, hcoded.definitions, hcoded.arguments⟩
  rcases List.mem_append.mp hj with hj | hj
  · exact hcoded.listed j hj
  · exact List.mem_singleton.mp hj ▸ hmade

/-- A step keeps the code in order. -/
theorem Step.coded (h : draft.Sound) (hstep : draft.Step next) (hcoded : draft.Coded) :
    next.Coded := by
  cases hstep with
  | value _ hadd =>
    obtain ⟨-, rfl⟩ := addValue_spec hadd
    refine hcoded.of_kept rfl rfl (fun i v hv => ?_) (.inl rfl)
    have hconsistent := h.built.consistent
    exact congrArg Value.definition
      (Pool.value_push_of_lt (hconsistent.mem_values.mp (hconsistent.outputs i v hv)))
  | argument _ _ hfirst =>
    exact hcoded.of_kept rfl rfl (fun _ _ _ => Pool.field_modifyValue _ fun _ => rfl) (.inr hfirst)
  | made _ hout hargument _ _ hadd => exact hcoded.made h hout hargument hadd
  | listed hmade hadd => exact hcoded.addInstr hmade hadd
  | copy => exact hcoded.of_kept rfl rfl (fun _ _ _ => rfl) (.inl rfl)
  | pinned =>
    exact hcoded.of_kept rfl rfl (fun _ _ _ => Pool.field_modifyValue _ fun _ => rfl) (.inl rfl)
  | interval hset =>
    exact hcoded.of_kept rfl (Pool.setInterval_spec hset).2.1
      (fun _ _ _ => Pool.field_setInterval Value.definition (fun _ _ _ => rfl) hset) (.inl rfl)

/-- Copies stand at positive positions and are between values of the unit. -/
def Copied (draft : Draft) : Prop :=
  ∀ copy ∈ draft.unit.copies, 0 < copy.position ∧
    copy.source ∈ draft.unit.values ∧ copy.target ∈ draft.unit.values

/-- Copies stay in order as long as there is no new one. -/
theorem Copied.of_kept (h : draft.Copied) (hstep : draft.Step next)
    (hcopies : next.unit.copies = draft.unit.copies) : next.Copied := by
  intro copy hcopy
  rw [hcopies] at hcopy
  obtain ⟨hposition, hsource, htarget⟩ := h copy hcopy
  exact ⟨hposition, hstep.values hsource, hstep.values htarget⟩

/-- A step keeps copies in order. -/
theorem Step.copied (hstep : draft.Step next) (hcopied : draft.Copied) : next.Copied := by
  have hkept := hcopied.of_kept hstep
  cases hstep with
  | value _ hadd =>
    obtain ⟨-, rfl⟩ := addValue_spec hadd
    exact hkept rfl
  | listed _ hadd =>
    obtain ⟨instrs, rfl⟩ := CodeUnit.addInstr_spec hadd
    exact hkept rfl
  | argument | made | pinned | interval => exact hkept rfl
  | copy hposition hsource htarget =>
    intro other hother
    rcases List.mem_append.mp hother with hother | hother
    · exact hcopied other hother
    · rw [List.mem_singleton.mp hother]
      exact ⟨hposition, hsource, htarget⟩

end Draft

/-! ## Tidy units -/

namespace CodeUnit

/-- The unit is complete and in order: its parts refer to its values, and its values, instructions
and copies are as reading leaves them. -/
structure Tidy (u : CodeUnit) : Prop where
  /-- The values are numbered from zero on, in order. Numbers are words. -/
  numbers : u.values.length < 2 ^ 63 →
    u.values.map (fun v => (u.value v).number.toInt) = (List.range u.values.length).map Int.ofNat
  names : (u.values.map fun v => (u.value v).name).Nodup
  intervals : ∀ v ∈ u.values, (u.value v).hasInterval = true
  fixed : ∀ v ∈ u.values, ∀ register ∈ (u.value v).fixed, 0 ≤ register
  arguments : ∀ v ∈ u.arguments, v ∈ u.values
  argumentsOnce : u.arguments.Nodup
  argumentsMarked : ∀ v ∈ u.values, (u.value v).isArgument = true ↔ v ∈ u.arguments
  inputs : ∀ i ∈ u.instrs, ∀ v ∈ (u.instr i).inputs, v ∈ u.values
  outputs : ∀ i ∈ u.instrs, ∀ v ∈ (u.instr i).out, v ∈ u.values
  instrsPositive : ∀ i ∈ u.instrs, 0 < (u.instr i).number
  instrsOrdered : u.instrs.Pairwise fun i j => (u.instr i).number < (u.instr j).number
  outputsNoArguments : ∀ i ∈ u.instrs, ∀ v ∈ (u.instr i).out, v ∉ u.arguments
  outputsOnce : ∀ i ∈ u.instrs, ∀ j ∈ u.instrs, ∀ v ∈ (u.instr i).out, v ∈ (u.instr j).out → i = j
  copies : ∀ copy ∈ u.copies, 0 < copy.position ∧ copy.source ∈ u.values ∧ copy.target ∈ u.values

/-- Every unit that is read is tidy. -/
theorem tidy_of_read {expr : SExpr} {u : CodeUnit} (h : ofSExpr expr = .ok u) : u.Tidy := by
  obtain ⟨name, bindings, hsteps, hintervals⟩ := steps_of_read h
  have hstart := Draft.sound_start name
  have hconsistent := (hsteps.sound hstart).built.consistent
  have hnumbered : Draft.Numbered { unit := u, bindings } :=
    hsteps.preserves Draft.Step.numbered hstart ⟨by simp, fun _ => rfl, .nil, by simp⟩
  have hmarked : Draft.Marked { unit := u, bindings } :=
    hsteps.preserves Draft.Step.marked hstart ⟨by simp, .nil⟩
  have hfixable : Draft.Fixable { unit := u, bindings } :=
    hsteps.preserves (fun _ => Draft.Step.fixable) hstart fun _ _ hnone => by cases hnone
  have hcoded : Draft.Coded { unit := u, bindings } :=
    hsteps.preserves Draft.Step.coded hstart
      ⟨by simp, by simp, .nil, fun _ hi => absurd hi (Nat.not_lt_zero _),
        fun _ hi => absurd hi (Nat.not_lt_zero _)⟩
  have hcopied : Draft.Copied { unit := u, bindings } :=
    hsteps.preserves (fun _ => Draft.Step.copied) hstart (by simp [Draft.Copied])
  have hnodup : u.values.Nodup := hconsistent.values.nodup_iff.mpr List.nodup_range
  exact {
    numbers := fun hlt => by
      have hrange : u.values = List.range u.values.length := hnumbered.values hlt
      have hnumber : ∀ v ∈ u.values, (u.value v).number.toInt = Int.ofNat v := fun v hv => by
        rw [hnumbered.numbers v hv, Int64.toInt_ofNat_of_lt]
        · rfl
        · rw [hrange, List.mem_range] at hv
          exact Nat.lt_trans hv hlt
      calc u.values.map (fun v => (u.value v).number.toInt)
        _ = u.values.map Int.ofNat := List.map_congr_left hnumber
        _ = (List.range u.values.length).map Int.ofNat := by rw [← hrange]
    names := hnodup.map_on fun v hv w hw heq => hnumbered.eq_of_name_eq hv hw heq
    intervals := hintervals
    fixed := fun v _ => hfixable v
    arguments := hconsistent.arguments
    argumentsOnce := hmarked.once
    argumentsMarked := hmarked.marked
    inputs := fun i _ => hconsistent.inputs i
    outputs := fun i _ => hconsistent.outputs i
    instrsPositive := hcoded.positive
    instrsOrdered := hcoded.ordered
    outputsNoArguments := fun i hi => hcoded.arguments i (hcoded.listed i hi)
    outputsOnce := fun i hi j hj v hv hv' => by
      have hdefinition := hcoded.definitions i (hcoded.listed i hi) v hv
      rw [hcoded.definitions j (hcoded.listed j hj) v hv'] at hdefinition
      exact (Option.some.inj hdefinition).symm
    copies := hcopied }

/-- Values are defined as an argument, an output, the source and the target of a copy, in an
interval and where a register is fixed. -/
def blendForm : SExpr :=
  .list [.symbol "unit" 1, .symbol "blend" 1,
    .list [.symbol "arguments" 2, .list [.symbol "a" 2, .symbol "wide" 2] 2] 2,
    .list [.symbol "instructions" 3,
      .list [.int 2 3, .symbol "move" 3, .list [.symbol "b" 3, .symbol "single" 3] 3,
        .symbol "w" 3] 3,
      .list [.int 5 4, .symbol "invoke" 4, .symbol "f" 4, .list [] 4, .symbol "b" 4] 4] 3,
    .list [.symbol "fixed" 5, .list [.list [.symbol "z" 5, .symbol "object" 5] 5, .int 7 5] 5] 5,
    .list [.symbol "intervals" 6, .list [.symbol "s" 6, .int 1 6, .int 4 6] 6,
      .list [.symbol "w" 6, .symbol "single" 6, .int 1 6, .int 9 6] 6,
      .list [.symbol "z" 6, .int 3 6, .int 6 6] 6] 6,
    .list [.symbol "copies" 7, .list [.int 4 7, .list [.symbol "s" 7, .symbol "single" 7] 7,
      .list [.symbol "t" 7, .symbol "single" 7] 7] 7] 7] 1

/-- What is read from `blendForm`. -/
def blend : CodeUnit where
  name := "blend"
  pool := {
    values := #[
      { number := 0, name := "a", type := .wide, start := 0, stop := 1, isArgument := true },
      { number := 1, name := "b", type := .single, start := 2, stop := 6, definition := some 0,
        uses := [1] },
      { number := 2, name := "t", type := .single, start := 4, stop := 5 },
      { number := 3, name := "w", type := .single, start := 1, stop := 9, uses := [0] },
      { number := 4, name := "s", type := .single, start := 1, stop := 4 },
      { number := 5, name := "z", type := .object, start := 3, stop := 6, fixed := some 7 }]
    instrs := #[
      { number := 2, opcode := .move, out := some 1, inputs := [3] },
      { number := 5, opcode := .invoke, method := "f", inputs := [1] }] }
  arguments := [0]
  instrs := [0, 1]
  values := [0, 1, 2, 3, 4, 5]
  copies := [⟨4, 4, 2⟩]

theorem tidy_of_read_blend : ofSExpr blendForm = .ok blend ∧ blend.Tidy := by
  have hread : ofSExpr blendForm = .ok blend := by decide +kernel
  exact ⟨hread, tidy_of_read hread⟩

end CodeUnit
end RegisterAllocation
