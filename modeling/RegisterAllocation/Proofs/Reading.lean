import RegisterAllocation.Fixture.Unit
import RegisterAllocation.Proofs.Building
import RegisterAllocation.Proofs.Reserved
import Mathlib.Logic.Relation

/-!
# Units that are read

`Draft.Step` says what a step of reading a written unit can do, and when. Reading consists of such
steps (`CodeUnit.steps_of_read`), so that the unit is built step by step and consistent. In the end
every value has an interval (`CodeUnit.built_of_read`), and so nothing stands in the way of
allocating the unit but registers that are fixed too high and more values than there are registers
(`CodeUnit.wellFormed_of_read`).
-/

namespace RegisterAllocation

/-- What every step of a fold keeps holds in the end. -/
theorem foldlM_preserves {ε α σ : Type} {P : σ → Prop} {f : σ → α → Except ε σ} {xs : List α}
    {s t : σ} (hstep : ∀ {s x t}, P s → f s x = .ok t → P t) (hs : P s)
    (h : xs.foldlM f s = .ok t) : P t := by
  induction xs generalizing s with
  | nil =>
    cases h
    exact hs
  | cons x xs ih =>
    obtain ⟨next, hnext, h⟩ := bind_eq_ok h
    exact ih (hstep hs hnext) h

namespace Draft

/-- The unit is built step by step, and names refer to its values with these names. -/
structure Sound (draft : Draft) : Prop where
  built : draft.unit.Built
  bound : ∀ binding ∈ draft.bindings, binding.2 ∈ draft.unit.values
  named : ∀ binding ∈ draft.bindings, (draft.unit.value binding.2).name = binding.1

/-- What reading can do next. Arguments come before all instructions and each of them once, and no
instruction has an argument as its output. -/
inductive Step : Draft → Draft → Prop
  | value {draft next : Draft} {name : String} {type : MoveType} {v : ValueId}
    (hname : draft.bindings.lookup name = none)
    (hadd : draft.addValue name type = .ok (v, next)) : Step draft next
  | argument {draft : Draft} {v : ValueId} (hv : v ∈ draft.unit.values)
    (honce : v ∉ draft.unit.arguments) (hfirst : draft.unit.pool.instrs = #[]) :
    Step draft { draft with unit := draft.unit.markArgument v }
  | made {draft : Draft} {instr : Instruction} {i : InstrId} {pool : Pool}
    (hinputs : ∀ v ∈ instr.inputs, v ∈ draft.unit.values)
    (hout : ∀ v ∈ instr.out, v ∈ draft.unit.values)
    (hargument : ∀ v ∈ instr.out, v ∉ draft.unit.arguments)
    (hoperands : instr.opcode.isBinop = true → 2 ≤ instr.inputs.length)
    (hliteral : instr.opcode = .const → instr.literal.isSome = true)
    (hadd : draft.unit.pool.addInstr instr = .ok (i, pool)) :
    Step draft { draft with unit := { draft.unit with pool } }
  | listed {draft : Draft} {i : InstrId} {unit : CodeUnit}
    (hmade : i < draft.unit.pool.instrs.size) (hadd : draft.unit.addInstr i = .ok unit) :
    Step draft { draft with unit }
  | copy {draft : Draft} {copy : Copy} (hposition : 0 < copy.position)
    (hsource : copy.source ∈ draft.unit.values) (htarget : copy.target ∈ draft.unit.values) :
    Step draft { draft with unit := draft.unit.addCopy copy }
  | pinned {draft : Draft} {v : ValueId} {register : Register} (hregister : 0 ≤ register) :
    Step draft { draft with unit := draft.unit.modifyValue v fun value =>
      { value with fixed := some register } }
  | interval {draft : Draft} {v : ValueId} {start stop : Position} {pool : Pool}
    (hset : draft.unit.pool.setInterval v start stop = .ok pool) :
    Step draft { draft with unit := { draft.unit with pool } }

/-- What reading does, step by step. -/
abbrev Steps : Draft → Draft → Prop := Relation.ReflTransGen Step

variable {draft next : Draft} {expr entry : SExpr} {v : ValueId}

/-! ## Steps -/

def newValue (draft : Draft) (name : String) (type : MoveType) : Value :=
  { number := Int64.ofNat draft.unit.values.length, name, type }

/-- A new value comes last in the pool, and all values are sorted by their numbers. -/
theorem addValue_spec {name : String} {type : MoveType}
    (hadd : draft.addValue name type = .ok (v, next)) :
    let pool := (draft.unit.pool.addValue (draft.newValue name type)).2
    let values := sortByKey (fun w => (pool.value w).number) (draft.unit.values ++ [v])
    v = draft.unit.pool.values.size ∧
      next = {
        unit := { draft.unit with pool, values }
        bindings := (name, v) :: draft.bindings } := by
  obtain ⟨added, hadded, hadd⟩ := bind_eq_ok hadd
  have hadded := mapError_eq_ok hadded
  cases hadd
  rw [CodeUnit.addValue] at hadded
  split at hadded
  · cases hadded
  · cases hadded
    exact ⟨rfl, rfl⟩

/-- A step adds a value, or the values and the names stay as they are. -/
theorem Step.value_or_kept (hstep : draft.Step next) :
    (∃ name type v, draft.bindings.lookup name = none ∧
      draft.addValue name type = .ok (v, next)) ∨
    next.unit.values = draft.unit.values ∧ next.bindings = draft.bindings := by
  cases hstep with
  | value hname hadd => exact .inl ⟨_, _, _, hname, hadd⟩
  | listed hmade hadd =>
    obtain ⟨instrs, rfl⟩ := CodeUnit.addInstr_spec hadd
    exact .inr ⟨rfl, rfl⟩
  | argument | made | copy | pinned | interval => exact .inr ⟨rfl, rfl⟩

/-- A step takes no value away. -/
theorem Step.values (hstep : draft.Step next) : draft.unit.values ⊆ next.unit.values := by
  rcases hstep.value_or_kept with ⟨name, type, v, -, hadd⟩ | ⟨hvalues, -⟩
  · obtain ⟨-, rfl⟩ := addValue_spec hadd
    exact fun w hw => (sortByKey_perm _ _).mem_iff.mpr (List.mem_append_left _ hw)
  · rw [hvalues]
    exact List.Subset.refl _

/-- What a value is by its definition stays as it is. -/
theorem Step.field {α : Type} (field : Value → α)
    (hfield : ∀ (value : Value) start stop fixed isArgument definition uses,
      field { value with start, stop, fixed, isArgument, definition, uses } = field value)
    (h : draft.Sound) (hstep : draft.Step next) {w : ValueId} (hw : w ∈ draft.unit.values) :
    field (next.unit.value w) = field (draft.unit.value w) := by
  cases hstep with
  | value hname hadd =>
    obtain ⟨-, rfl⟩ := addValue_spec hadd
    have hlt := h.built.consistent.mem_values.mp hw
    exact congrArg field (Pool.value_push_of_lt hlt)
  | argument => exact Pool.field_modifyValue field fun _ => hfield ..
  | made _ _ _ _ _ hadd =>
    exact Pool.field_addInstr field (fun _ _ => hfield ..) (fun _ _ => hfield ..) hadd
  | listed hmade hadd =>
    obtain ⟨instrs, rfl⟩ := CodeUnit.addInstr_spec hadd
    rfl
  | copy => rfl
  | pinned => exact Pool.field_modifyValue field fun _ => hfield ..
  | interval hset => exact Pool.field_setInterval field (fun _ _ _ => hfield ..) hset

/-- No step changes the name of a value. -/
theorem Step.name (h : draft.Sound) (hstep : draft.Step next) {w : ValueId}
    (hw : w ∈ draft.unit.values) : (next.unit.value w).name = (draft.unit.value w).name :=
  hstep.field Value.name (fun _ _ _ _ _ _ _ => rfl) h hw

/-- A step keeps the unit one that is built. -/
theorem Step.built (h : draft.Sound) (hstep : draft.Step next) : next.unit.Built := by
  cases hstep with
  | value hname hadd =>
    obtain ⟨added, hadded, hadd⟩ := bind_eq_ok hadd
    have hadded := mapError_eq_ok hadded
    cases hadd
    exact h.built.value _ rfl hadded
  | argument hv => exact h.built.argument hv
  | made hinputs hout _ hoperands hliteral hadd =>
    exact h.built.made hinputs hout hoperands hliteral hadd
  | listed hmade hadd => exact h.built.listed hadd
  | copy hposition hsource htarget => exact h.built.copy hsource htarget
  | pinned => exact h.built.pinned _
  | interval hset => exact h.built.interval hset

/-- A name refers to what it referred to before, or to a new value with this name. -/
theorem Step.bindings (hstep : draft.Step next) : ∀ binding ∈ next.bindings,
    binding ∈ draft.bindings ∨
      binding.2 ∈ next.unit.values ∧ (next.unit.value binding.2).name = binding.1 := by
  rcases hstep.value_or_kept with ⟨name, type, v, -, hadd⟩ | ⟨-, hbindings⟩
  · obtain ⟨rfl, rfl⟩ := addValue_spec hadd
    refine List.forall_mem_cons.mpr ⟨.inr ⟨?_, ?_⟩, fun binding => .inl⟩
    · exact (sortByKey_perm _ _).mem_iff.mpr (by simp)
    · exact congrArg Value.name (Pool.value_push.trans (if_pos rfl))
  · rw [hbindings]
    exact fun binding => .inl

/-- A step keeps the draft sound. -/
theorem Step.sound (h : draft.Sound) (hstep : draft.Step next) : next.Sound := by
  refine ⟨hstep.built h, fun binding hbinding => ?_, fun binding hbinding => ?_⟩
  · rcases hstep.bindings binding hbinding with hold | ⟨hnew, -⟩
    · exact hstep.values (h.bound binding hold)
    · exact hnew
  · rcases hstep.bindings binding hbinding with hold | ⟨-, hnew⟩
    · rw [hstep.name h (h.bound binding hold)]
      exact h.named binding hold
    · exact hnew

/-- A name that is bound stays bound. -/
theorem Step.isBound (hstep : draft.Step next) {name : String} (h : draft.isBound name = true) :
    next.isBound name = true := by
  rcases hstep.value_or_kept with ⟨added, type, v, -, hadd⟩ | ⟨-, hbindings⟩
  · obtain ⟨-, rfl⟩ := addValue_spec hadd
    rw [Draft.isBound, List.lookup_cons]
    split
    · rfl
    · exact h
  · rwa [Draft.isBound, hbindings]

/-- Steps take no value away. -/
theorem Steps.values (hsteps : draft.Steps next) : draft.unit.values ⊆ next.unit.values := by
  induction hsteps with
  | refl => exact List.Subset.refl _
  | tail _ hstep ih => exact List.Subset.trans ih hstep.values

/-- Steps keep the draft sound. -/
theorem Steps.sound (h : draft.Sound) (hsteps : draft.Steps next) : next.Sound := by
  induction hsteps with
  | refl => exact h
  | tail _ hstep ih => exact hstep.sound ih

/-- What every step keeps holds in the end. -/
theorem Steps.preserves {P : Draft → Prop}
    (hstep : ∀ {draft next : Draft}, draft.Sound → draft.Step next → P draft → P next)
    (h : draft.Sound) (hsteps : draft.Steps next) (hP : P draft) : P next := by
  induction hsteps with
  | refl => exact hP
  | tail hsteps hlast ih => exact hstep (Steps.sound h hsteps) hlast ih

/-- Values keep their names. -/
theorem Steps.name (h : draft.Sound) (hsteps : draft.Steps next) {w : ValueId}
    (hw : w ∈ draft.unit.values) :
    (next.unit.value w).name = (draft.unit.value w).name := by
  induction hsteps with
  | refl => rfl
  | tail hsteps hstep ih =>
    rw [hstep.name (Steps.sound h hsteps) (Steps.values hsteps hw), ih]

/-- Names that are bound stay bound. -/
theorem Steps.isBound (hsteps : draft.Steps next) {name : String}
    (h : draft.isBound name = true) : next.isBound name = true := by
  induction hsteps with
  | refl => exact h
  | tail _ hstep ih => exact hstep.isBound ih

def argumentNames (draft : Draft) : List String :=
  draft.unit.arguments.map fun v => (draft.unit.value v).name

/-- The names of the arguments stay as long as the arguments do. -/
theorem Steps.argumentNames (h : draft.Sound) (hsteps : draft.Steps next)
    (harguments : next.unit.arguments = draft.unit.arguments) :
    next.argumentNames = draft.argumentNames := by
  rw [Draft.argumentNames, harguments]
  exact List.map_congr_left fun v hv => hsteps.name h (h.built.consistent.arguments v hv)

/-! ## Definitions -/

/-- Nothing but definitions has been entered. -/
structure Enters (draft next : Draft) : Prop where
  steps : draft.Steps next
  arguments : next.unit.arguments = draft.unit.arguments
  instrs : next.unit.pool.instrs = draft.unit.pool.instrs

theorem Enters.refl (draft : Draft) : draft.Enters draft := ⟨.refl, rfl, rfl⟩

theorem Enters.trans {last : Draft} (h : draft.Enters next) (h' : next.Enters last) :
    draft.Enters last :=
  ⟨h.steps.trans h'.steps, h'.arguments.trans h.arguments, h'.instrs.trans h.instrs⟩

/-- A value that is added is bound to its name, and nothing else changes. -/
theorem enters_addValue {name : String} {type : MoveType}
    (hname : draft.bindings.lookup name = none)
    (hadd : draft.addValue name type = .ok (v, next)) :
    draft.Enters next ∧ next.bindings.lookup name = some v := by
  have hstep : draft.Step next := .value hname hadd
  obtain ⟨-, rfl⟩ := addValue_spec hadd
  exact ⟨⟨.single hstep, rfl, rfl⟩, by simp⟩

/-- A definition is a list of a name and a type. It is the first one of the name, or it agrees with
the first one. -/
theorem define_cases (hdefine : draft.define expr = .ok (v, next)) :
    expr.items ≠ [] ∧ (draft.bindings.lookup expr.head = some v ∧ next = draft ∨
      draft.bindings.lookup expr.head = none ∧
        ∃ type, draft.addValue expr.head type = .ok (v, next)) := by
  unfold define at hdefine
  split at hdefine
  · refine ⟨by simp [SExpr.items], ?_⟩
    rw [SExpr.head]
    split at hdefine
    · cases hdefine
    · split at hdefine
      · next hlookup => exact .inr ⟨hlookup, _, hdefine⟩
      · next hlookup =>
        dsimp only at hdefine
        split at hdefine
        · cases hdefine
          exact .inl ⟨hlookup, rfl⟩
        · cases hdefine
  · cases hdefine

/-- A name that is bound stands for a value of that name. -/
theorem lookup_spec_of_bound (h : draft.Sound) {name : String}
    (hlookup : draft.bindings.lookup name = some v) :
    v ∈ draft.unit.values ∧ (draft.unit.value v).name = name := by
  obtain ⟨l, r, hbindings, -⟩ := List.lookup_eq_some_iff.mp hlookup
  have hmem : (name, v) ∈ draft.bindings := by simp [hbindings]
  exact ⟨h.bound _ hmem, h.named _ hmem⟩

/-- Defining binds the name to a value of that name. -/
theorem define_spec (h : draft.Sound) (hdefine : draft.define expr = .ok (v, next)) :
    draft.Enters next ∧ next.isBound expr.head = true ∧
      v ∈ next.unit.values ∧ (next.unit.value v).name = expr.head := by
  obtain ⟨-, ⟨hlookup, rfl⟩ | ⟨hlookup, type, hadd⟩⟩ := define_cases hdefine
  · exact ⟨.refl _, by rw [isBound, hlookup]; rfl, lookup_spec_of_bound h hlookup⟩
  · obtain ⟨henters, hlookup⟩ := enters_addValue hlookup hadd
    exact ⟨henters, by rw [isBound, hlookup]; rfl,
      lookup_spec_of_bound (henters.steps.sound h) hlookup⟩

/-- Looking up gives a value of the unit, and defines it only if it stands in a list. -/
theorem lookup_spec (h : draft.Sound) (hlookup : draft.lookup expr = .ok (v, next)) :
    draft.Enters next ∧ v ∈ next.unit.values ∧ (expr.isList = false → next = draft) ∧
      (expr.isList = true → (next.unit.value v).name = expr.head) := by
  unfold lookup at hlookup
  split at hlookup
  · obtain ⟨henters, -, hv, hname⟩ := define_spec h hlookup
    exact ⟨henters, hv, fun hlist => absurd hlist (by simp [SExpr.isList]), fun _ => hname⟩
  · split at hlookup
    · next hbound =>
      cases hlookup
      exact ⟨.refl _, (lookup_spec_of_bound h hbound).1, fun _ => rfl,
        fun hlist => absurd hlist (by simp [SExpr.isList])⟩
    · cases hlookup
  · cases hlookup

/-- Defining an argument binds a name that was free. -/
theorem defineArgument_spec (h : draft.Sound) (hdefine : draft.defineArgument entry = .ok next) :
    draft.Enters next ∧ entry.isList = true ∧ draft.isBound entry.head = false ∧
      next.isBound entry.head = true := by
  unfold defineArgument at hdefine
  split at hdefine
  · cases hdefine
  next hbound =>
  obtain ⟨⟨v, defined⟩, hdefined, hdefine⟩ := bind_eq_ok hdefine
  cases hdefine
  obtain ⟨henters, hnow, -⟩ := define_spec h hdefined
  have hlist : entry.isList = true := by
    cases entry with
    | list => rfl
    | int | symbol => exact absurd rfl (define_cases hdefined).1
  exact ⟨henters, hlist, by simpa using hbound, hnow⟩

/-- The arguments have different names, which nothing had before. -/
theorem defineArguments_spec (h : draft.Sound) {entries : List SExpr}
    (hdefine : entries.foldlM defineArgument draft = .ok next) :
    draft.Enters next ∧ (entries.map SExpr.head).Nodup ∧
      ∀ entry ∈ entries, entry.isList = true ∧ draft.isBound entry.head = false ∧
        next.isBound entry.head = true := by
  induction entries generalizing draft with
  | nil =>
    cases hdefine
    exact ⟨.refl _, .nil, by simp⟩
  | cons entry entries ih =>
    obtain ⟨middle, hmiddle, hdefine⟩ := bind_eq_ok hdefine
    obtain ⟨henters, hlist, hbefore, hnow⟩ := defineArgument_spec h hmiddle
    obtain ⟨hrest, hnodup, hall⟩ := ih (henters.steps.sound h) hdefine
    refine ⟨henters.trans hrest, List.nodup_cons.mpr ⟨fun hmem => ?_, hnodup⟩,
      List.forall_mem_cons.mpr ⟨⟨hlist, hbefore, hrest.steps.isBound hnow⟩, fun other hother => ?_⟩⟩
    · obtain ⟨other, hother, heq⟩ := List.mem_map.mp hmem
      have hunbound := (hall other hother).2.1
      rw [heq, hnow] at hunbound
      cases hunbound
    · obtain ⟨hlist, hunbound, hbound⟩ := hall other hother
      refine ⟨hlist, ?_, hbound⟩
      by_contra hbefore
      rw [henters.steps.isBound (by simpa using hbefore)] at hunbound
      cases hunbound

/-- Defining the output of an instruction binds a name that was free. -/
theorem defineOutput_spec (h : draft.Sound) (hdefine : draft.defineOutput entry = .ok next) :
    draft.Enters next ∧ ∀ out, outputOf? entry.items = some out → out.items ≠ [] →
      draft.isBound out.head = false := by
  unfold defineOutput at hdefine
  split at hdefine
  · cases hdefine
  · next first rest line hout =>
    dsimp only at hdefine
    split at hdefine
    · cases hdefine
    next hbound =>
    obtain ⟨⟨v, defined⟩, hdefined, hdefine⟩ := bind_eq_ok hdefine
    cases hdefine
    refine ⟨(define_spec h hdefined).1, fun out heq _ => ?_⟩
    rw [hout] at heq
    cases heq
    simpa using hbound
  · next other hout hother =>
    cases hdefine
    refine ⟨.refl _, fun out heq hitems => ?_⟩
    obtain rfl : other = out := Option.some.inj (hother.symm.trans heq)
    cases other with
    | int | symbol => exact absurd rfl hitems
    | list items line =>
      cases items with
      | nil => exact absurd rfl hitems
      | cons first rest => exact absurd rfl (hout first rest line)

/-- The outputs of instructions have names that nothing had before. -/
theorem defineOutputs_spec (h : draft.Sound) {entries : List SExpr}
    (hdefine : entries.foldlM defineOutput draft = .ok next) :
    draft.Enters next ∧ ∀ entry ∈ entries, ∀ out, outputOf? entry.items = some out →
      out.items ≠ [] → draft.isBound out.head = false := by
  induction entries generalizing draft with
  | nil =>
    cases hdefine
    exact ⟨.refl _, by simp⟩
  | cons entry entries ih =>
    obtain ⟨middle, hmiddle, hdefine⟩ := bind_eq_ok hdefine
    obtain ⟨henters, hfirst⟩ := defineOutput_spec h hmiddle
    obtain ⟨hrest, hall⟩ := ih (henters.steps.sound h) hdefine
    refine ⟨henters.trans hrest,
      List.forall_mem_cons.mpr ⟨hfirst, fun other hother out hout hitems => ?_⟩⟩
    by_contra hbound
    have hunbound := hall other hother out hout hitems
    rw [henters.steps.isBound (by simpa using hbound)] at hunbound
    cases hunbound

/-- Defining the target of a copy only enters values. -/
theorem enters_defineTarget (h : draft.Sound) (hdefine : draft.defineTarget entry = .ok next) :
    draft.Enters next := by
  unfold defineTarget at hdefine
  split at hdefine
  · obtain ⟨⟨v, defined⟩, hdefined, hdefine⟩ := bind_eq_ok hdefine
    cases hdefine
    exact (define_spec h hdefined).1
  · cases hdefine
    exact .refl _

/-- Defining the value of an interval only enters values. -/
theorem enters_defineInterval (h : draft.Sound) (hdefine : draft.defineInterval entry = .ok next) :
    draft.Enters next := by
  unfold defineInterval at hdefine
  split at hdefine
  · obtain ⟨⟨v, defined⟩, hdefined, hdefine⟩ := bind_eq_ok hdefine
    cases hdefine
    exact (define_spec h hdefined).1
  · cases hdefine
    exact .refl _

/-- What all entries of a clause enter. -/
theorem Enters.foldlM {f : Draft → SExpr → Except FormFailure Draft} {entries : List SExpr}
    (hf : ∀ {draft entry next}, draft.Sound → f draft entry = .ok next → draft.Enters next)
    (h : draft.Sound) (hfold : entries.foldlM f draft = .ok next) : draft.Enters next :=
  foldlM_preserves (fun hs hx => hs.trans (hf (hs.steps.sound h) hx)) (.refl draft) hfold

/-- After the definitions the arguments have different names, and none of them is the name of an
output. -/
theorem defineAll_spec (h : draft.Sound) {clauses : Clauses}
    (hdefine : draft.defineAll clauses = .ok next) :
    draft.Enters next ∧
      (∀ entry ∈ Clauses.entries clauses.arguments, entry.isList = true) ∧
      ((Clauses.entries clauses.arguments).map SExpr.head).Nodup ∧
      ∀ entry ∈ Clauses.entries clauses.instructions, ∀ out, outputOf? entry.items = some out →
        out.items ≠ [] → out.head ∉ (Clauses.entries clauses.arguments).map SExpr.head := by
  obtain ⟨withArguments, harguments, hdefine⟩ := bind_eq_ok hdefine
  obtain ⟨withOutputs, houtputs, hdefine⟩ := bind_eq_ok hdefine
  obtain ⟨withTargets, htargets, hdefine⟩ := bind_eq_ok hdefine
  obtain ⟨harguments, hnodup, hbound⟩ := defineArguments_spec h harguments
  have h := harguments.steps.sound h
  obtain ⟨houtputs, hunbound⟩ := defineOutputs_spec h houtputs
  have h := houtputs.steps.sound h
  have htargets := Enters.foldlM enters_defineTarget h htargets
  have hintervals := Enters.foldlM enters_defineInterval (htargets.steps.sound h) hdefine
  refine ⟨((harguments.trans houtputs).trans htargets).trans hintervals,
    fun entry hentry => (hbound entry hentry).1, hnodup,
    fun entry hentry out hout hitems hmem => ?_⟩
  obtain ⟨argument, hargument, heq⟩ := List.mem_map.mp hmem
  have hname := (hbound argument hargument).2.2
  rw [heq, hunbound entry hentry out hout hitems] at hname
  cases hname

/-! ## Arguments -/

/-- An argument that is added comes last. -/
theorem addArgument_spec (h : draft.Sound) (hlist : entry.isList = true)
    (hfirst : draft.unit.pool.instrs = #[]) (hname : entry.head ∉ draft.argumentNames)
    (hadd : draft.addArgument entry = .ok next) :
    draft.Steps next ∧ next.unit.pool.instrs = #[] ∧
      next.argumentNames = draft.argumentNames ++ [entry.head] := by
  obtain ⟨⟨v, found⟩, hlookup, hadd⟩ := bind_eq_ok hadd
  obtain ⟨hfound, hv, -, hhead⟩ := lookup_spec h hlookup
  have hnames := hfound.steps.argumentNames h hfound.arguments
  have hinstrs : found.unit.pool.instrs = #[] := hfound.instrs.trans hfirst
  have honce : v ∉ found.unit.arguments := fun hmem => by
    have hmem : (found.unit.value v).name ∈ found.argumentNames := List.mem_map_of_mem hmem
    rw [hhead hlist, hnames] at hmem
    exact hname hmem
  have hstep : found.Step { found with unit := found.unit.markArgument v } :=
    .argument hv honce hinstrs
  cases hadd
  refine ⟨hfound.steps.tail hstep, hinstrs, ?_⟩
  have hkept : ∀ w, ((found.unit.markArgument v).value w).name = (found.unit.value w).name :=
    fun w => Pool.field_modifyValue Value.name fun _ => rfl
  rw [← hnames, ← hhead hlist]
  simp [argumentNames, CodeUnit.markArgument, ← hkept]

/-- Arguments are added in their order. -/
theorem addArguments_spec (h : draft.Sound) {entries : List SExpr}
    (hlist : ∀ entry ∈ entries, entry.isList = true) (hfirst : draft.unit.pool.instrs = #[])
    (hnames : (draft.argumentNames ++ entries.map SExpr.head).Nodup)
    (hadd : entries.foldlM addArgument draft = .ok next) :
    draft.Steps next ∧ next.argumentNames = draft.argumentNames ++ entries.map SExpr.head := by
  induction entries generalizing draft with
  | nil =>
    cases hadd
    exact ⟨.refl, by simp⟩
  | cons entry entries ih =>
    obtain ⟨middle, hmiddle, hadd⟩ := bind_eq_ok hadd
    obtain ⟨hentry, hentries⟩ := List.forall_mem_cons.mp hlist
    rw [List.map_cons, List.append_cons] at hnames
    have hname : entry.head ∉ draft.argumentNames := fun hmem =>
      List.disjoint_of_nodup_append hnames.of_append_left hmem (List.mem_singleton_self _)
    obtain ⟨hsteps, hinstrs, hmiddle⟩ := addArgument_spec h hentry hfirst hname hmiddle
    rw [← hmiddle] at hnames
    obtain ⟨hrest, hall⟩ := ih (hsteps.sound h) hentries hinstrs hnames hadd
    exact ⟨hsteps.trans hrest, by simp [hall, hmiddle]⟩

/-! ## Instructions -/

/-- The output of an instruction is a value with its name. -/
theorem output_spec (h : draft.Sound) {out : Option ValueId}
    (houtput : draft.output expr = .ok (out, next)) :
    draft.Enters next ∧ ∀ v ∈ out, v ∈ next.unit.values ∧ expr.items ≠ [] ∧
      (next.unit.value v).name = expr.head := by
  unfold output at houtput
  split at houtput
  · cases houtput
    exact ⟨.refl _, by simp⟩
  · next hitems =>
    obtain ⟨⟨v, found⟩, hlookup, houtput⟩ := bind_eq_ok houtput
    cases houtput
    obtain ⟨henters, hv, -, hname⟩ := lookup_spec h hlookup
    refine ⟨henters, fun w hw => ?_⟩
    obtain rfl : v = w := Option.some.inj hw
    exact ⟨hv, fun hnil => hitems (by rw [SExpr.items] at hnil; rw [hnil]), hname rfl⟩
  · cases houtput

/-- The inputs of an instruction are values of the unit. -/
theorem inputs_spec (h : draft.Sound) {exprs : List SExpr} {inputs : List ValueId}
    (hinputs : draft.inputs exprs = .ok inputs) : ∀ v ∈ inputs, v ∈ draft.unit.values := by
  induction exprs generalizing inputs with
  | nil =>
    cases hinputs
    simp
  | cons expr exprs ih =>
    rw [Draft.inputs] at hinputs
    split at hinputs
    · cases hinputs
    next hlist =>
    obtain ⟨⟨v, next⟩, hlookup, hinputs⟩ := bind_eq_ok hinputs
    obtain ⟨rest, hrest, hinputs⟩ := bind_eq_ok hinputs
    cases hinputs
    obtain ⟨-, hv, hsame, -⟩ := lookup_spec h hlookup
    rw [hsame (by simpa using hlist)] at hv
    exact List.forall_mem_cons.mpr ⟨hv, ih hrest⟩

/-- An expression that does not define an argument as an output. -/
def IsFree (draft : Draft) (out : SExpr) : Prop := out.items ≠ [] → out.head ∉ draft.argumentNames

/-- The instruction `i` has been made, and the arguments are the same as before. -/
structure Makes (draft : Draft) (i : InstrId) (next : Draft) : Prop where
  steps : draft.Steps next
  arguments : next.unit.arguments = draft.unit.arguments
  made : i < next.unit.pool.instrs.size

/-- An instruction can be kept after its output has been entered. -/
theorem keep_spec (h : draft.Sound) {defined : Draft} {instr : Instruction} {i : InstrId}
    (hfree : draft.IsFree expr) (houtput : draft.output expr = .ok (instr.out, defined))
    (hinputs : ∀ v ∈ instr.inputs, v ∈ defined.unit.values)
    (hoperands : instr.opcode.isBinop = true → 2 ≤ instr.inputs.length)
    (hliteral : instr.opcode = .const → instr.literal.isSome = true)
    (hkeep : defined.keep (defined.unit.pool.addInstr instr) = .ok (i, next)) :
    draft.Makes i next := by
  obtain ⟨⟨j, pool⟩, hmade, hkeep⟩ := bind_eq_ok hkeep
  cases hkeep
  have hmade := mapError_eq_ok hmade
  obtain ⟨hdefined, hout⟩ := output_spec h houtput
  have hargument : ∀ v ∈ instr.out, v ∉ defined.unit.arguments := fun v hv hmem => by
    obtain ⟨-, hitems, hname⟩ := hout v hv
    have hmem : (defined.unit.value v).name ∈ defined.argumentNames := List.mem_map_of_mem hmem
    rw [hname, hdefined.steps.argumentNames h hdefined.arguments] at hmem
    exact hfree hitems hmem
  have hstep : defined.Step { defined with unit := { defined.unit with pool } } :=
    .made hinputs (fun v hv => (hout v hv).1) hargument hoperands hliteral hmade
  obtain ⟨rfl, hinstrs, -⟩ := Pool.addInstr_spec hmade
  exact ⟨hdefined.steps.tail hstep, hdefined.arguments, by simp [hinstrs]⟩

/-- Where the operands of an operation have the output: a method call has the method before it. -/
def outputOperand? (opcode : Opcode) : List SExpr → Option SExpr
  | [] => none
  | first :: rest =>
    if opcode = .invoke ∨ opcode = .invokeRange then some (rest.headD first) else some first

/-- An operation with a free output is made. -/
theorem addOperation_spec (h : draft.Sound) {number : Int64} {name : String} {opcode : Opcode}
    {numeric : Option NumericType} {operands : List SExpr} {i : InstrId}
    (hfree : ∀ out, outputOperand? opcode operands = some out → draft.IsFree out)
    (hadd : draft.addOperation entry number name opcode numeric operands = .ok (i, next)) :
    draft.Makes i next := by
  unfold addOperation at hadd
  split at hadd
  · next hconst =>
    subst hconst
    split at hadd
    · obtain ⟨⟨out, defined⟩, houtput, hadd⟩ := bind_eq_ok hadd
      obtain ⟨literal, -, hadd⟩ := bind_eq_ok hadd
      exact keep_spec h (hfree _ rfl) houtput (by simp) (by simp [Opcode.isBinop]) (fun _ => rfl)
        hadd
    · cases hadd
  next hconst =>
  split at hadd
  · next hbinop =>
    split at hadd
    · next outExpr left right =>
      obtain ⟨inputs, hinputs, hadd⟩ := bind_eq_ok hadd
      split at hadd
      · next first second =>
        obtain ⟨⟨out, defined⟩, houtput, hadd⟩ := bind_eq_ok hadd
        simp only [Pool.addBinop, if_pos hbinop] at hadd
        have hdirect : ¬(opcode = .invoke ∨ opcode = .invokeRange) := by
          rintro (rfl | rfl)
          · cases hbinop
          · cases hbinop
        refine keep_spec h (hfree _ (if_neg hdirect)) houtput ?_ (by simp)
          (fun h => absurd h hconst) hadd
        intro v hv
        exact (output_spec h houtput).1.steps.values (inputs_spec h hinputs v hv)
      · cases hadd
    · cases hadd
  next hbinop =>
  split at hadd
  · next hinvoke =>
    split at hadd
    · next method line outExpr exprs =>
      obtain ⟨⟨out, defined⟩, houtput, hadd⟩ := bind_eq_ok hadd
      obtain ⟨inputs, hinputs, hadd⟩ := bind_eq_ok hadd
      have hdefined := (output_spec h houtput).1.steps.sound h
      rw [Pool.addInvoke, if_pos (by simpa using hinvoke)] at hadd
      exact keep_spec h (hfree outExpr (if_pos hinvoke)) houtput (inputs_spec hdefined hinputs)
        (fun h => absurd h hbinop) (fun h => absurd h hconst) hadd
    · cases hadd
  · next hinvoke =>
    split at hadd
    · cases hadd
    · split at hadd
      · cases hadd
      obtain ⟨⟨out, defined⟩, houtput, hadd⟩ := bind_eq_ok hadd
      obtain ⟨inputs, hinputs, hadd⟩ := bind_eq_ok hadd
      have hdefined := (output_spec h houtput).1.steps.sound h
      exact keep_spec h (hfree _ (if_neg hinvoke)) houtput (inputs_spec hdefined hinputs)
        (fun h => absurd h hbinop) (fun h => absurd h hconst) hadd

/-- An opcode is found by its name. -/
theorem name_of_ofName? {name : String} {opcode : Opcode} (h : Opcode.ofName? name = some opcode) :
    opcode.name = name := by
  simpa using List.find?_some h

/-- What stands before the last hyphen begins the text. -/
theorem eq_append_of_splitAtLastHyphen? {cs front back : List Char}
    (h : splitAtLastHyphen? cs = some (front, back)) : ∃ rest, cs = front ++ rest := by
  unfold splitAtLastHyphen? at h
  dsimp only at h
  split at h
  · next c name hdrop =>
    cases h
    have hsplit := List.takeWhile_append_dropWhile (p := (· ≠ '-')) (l := cs.reverse)
    rw [hdrop] at hsplit
    have hsplit := congrArg List.reverse hsplit
    rw [List.reverse_reverse, List.reverse_append, List.reverse_cons, List.append_assoc] at hsplit
    exact ⟨_, hsplit.symm⟩
  · cases h

/-- The names of method calls, and no others, begin with `invoke`. -/
theorem isPrefixOf_invoke {name : String} {opcode : Opcode} {numeric : Option NumericType}
    (h : opcodeOfName? name = some (opcode, numeric)) :
    "invoke".toList.isPrefixOf name.toList = decide (opcode = .invoke ∨ opcode = .invokeRange) := by
  unfold opcodeOfName? at h
  split at h
  · next found hfound =>
    cases h
    obtain ⟨hfound, -⟩ := Option.filter_eq_some_iff.mp hfound
    rw [← name_of_ofName? hfound]
    cases opcode <;> decide
  · simp only [Option.bind_eq_bind, Option.bind_eq_some_iff, Option.ite_none_right_eq_some,
      Option.some.injEq, Prod.mk.injEq] at h
    obtain ⟨⟨front, back⟩, hsplit, found, hfound, numeric, -, hbinop, rfl, -⟩ := h
    obtain ⟨rest, hrest⟩ := eq_append_of_splitAtLastHyphen? hsplit
    have hfront : front = found.name.toList := by
      rw [name_of_ofName? hfound, String.toList_ofList]
    rw [hrest, hfront]
    revert hbinop
    cases found <;> simp [Opcode.isBinop, Opcode.name, List.isPrefixOf]

/-- An instruction with a free output is made. -/
theorem readInstruction_spec (h : draft.Sound) {i : InstrId}
    (hfree : ∀ out, outputOf? entry.items = some out → draft.IsFree out)
    (hread : draft.readInstruction entry = .ok (i, next)) : draft.Makes i next := by
  unfold readInstruction at hread
  split at hread
  · next number operation operands line =>
    obtain ⟨n, -, hread⟩ := bind_eq_ok hread
    by_cases hn : n ≤ 0
    · simp only [if_pos hn] at hread
      cases hread
    simp only [if_neg hn] at hread
    split at hread
    · next name nameLine =>
      split at hread
      · next opcode numeric hname =>
        refine addOperation_spec h (fun out hout => hfree out ?_) hread
        cases operands with
        | nil => cases hout
        | cons third rest =>
          rw [outputOperand?] at hout
          simpa only [SExpr.items, outputOf?, isPrefixOf_invoke hname, decide_eq_true_eq] using hout
      · cases hread
    · cases hread
  · cases hread

/-- Instructions with free outputs are made step by step. -/
theorem addInstructions_spec (h : draft.Sound) {last : Int64} {entries : List SExpr}
    (hfree : ∀ entry ∈ entries, ∀ out, outputOf? entry.items = some out → draft.IsFree out)
    (hadd : draft.addInstructions last entries = .ok next) : draft.Steps next := by
  induction entries generalizing draft last with
  | nil =>
    cases hadd
    exact .refl
  | cons entry entries ih =>
    rw [Draft.addInstructions] at hadd
    obtain ⟨⟨i, made⟩, hread, hadd⟩ := bind_eq_ok hadd
    obtain ⟨hentry, hentries⟩ := List.forall_mem_cons.mp hfree
    have hmade := readInstruction_spec h hentry hread
    dsimp only at hadd
    split at hadd
    · cases hadd
    obtain ⟨unit, hunit, hadd⟩ := bind_eq_ok hadd
    have hlisted := mapError_eq_ok hunit
    have hsteps : draft.Steps { made with unit } := hmade.steps.tail (.listed hmade.made hlisted)
    have hnames : Draft.argumentNames { made with unit } = draft.argumentNames := by
      refine hsteps.argumentNames h ?_
      obtain ⟨instrs, rfl⟩ := CodeUnit.addInstr_spec hlisted
      exact hmade.arguments
    refine hsteps.trans (ih (hsteps.sound h) (fun other hother out hout => ?_) hadd)
    rw [IsFree, hnames]
    exact hentries other hother out hout

/-! ## Other clauses -/

/-- A copy is added step by step. -/
theorem steps_addCopy (h : draft.Sound) (hadd : draft.addCopy entry = .ok next) :
    draft.Steps next := by
  unfold addCopy at hadd
  split at hadd
  · obtain ⟨n, -, hadd⟩ := bind_eq_ok hadd
    split at hadd
    · cases hadd
    next hpositive =>
    obtain ⟨⟨source, first⟩, hfirst, hadd⟩ := bind_eq_ok hadd
    obtain ⟨⟨target, second⟩, hsecond, hadd⟩ := bind_eq_ok hadd
    cases hadd
    obtain ⟨hfirst, hsource, -⟩ := lookup_spec h hfirst
    obtain ⟨hsecond, htarget, -⟩ := lookup_spec (hfirst.steps.sound h) hsecond
    have hposition : 0 < n := Int64.not_le.mp hpositive
    exact (hfirst.steps.trans hsecond.steps).tail
      (.copy hposition (hsecond.steps.values hsource) htarget)
  · cases hadd

/-- A fixed register is noted step by step. -/
theorem steps_addFixed (h : draft.Sound) (hadd : draft.addFixed entry = .ok next) :
    draft.Steps next := by
  unfold addFixed at hadd
  split at hadd
  · obtain ⟨n, -, hadd⟩ := bind_eq_ok hadd
    split at hadd
    · cases hadd
    next hnegative =>
    obtain ⟨⟨v, found⟩, hlookup, hadd⟩ := bind_eq_ok hadd
    cases hadd
    exact (lookup_spec h hlookup).1.steps.tail (.pinned (Int64.not_lt.mp hnegative))
  · cases hadd

/-- An interval is added step by step. -/
theorem steps_addInterval (h : draft.Sound) (hadd : draft.addInterval entry = .ok next) :
    draft.Steps next := by
  unfold addInterval at hadd
  split at hadd
  · obtain ⟨⟨v, found⟩, hlookup, hadd⟩ := bind_eq_ok hadd
    obtain ⟨start, -, hadd⟩ := bind_eq_ok hadd
    obtain ⟨stop, -, hadd⟩ := bind_eq_ok hadd
    split at hadd
    · cases hadd
    obtain ⟨pool, hset, hadd⟩ := bind_eq_ok hadd
    cases hadd
    exact (lookup_spec h hlookup).1.steps.tail (.interval (mapError_eq_ok hset))
  · cases hadd

/-- The steps of all entries of a clause. -/
theorem Steps.foldlM {f : Draft → SExpr → Except FormFailure Draft} {entries : List SExpr}
    (hf : ∀ {draft entry next}, draft.Sound → f draft entry = .ok next → draft.Steps next)
    (h : draft.Sound) (hfold : entries.foldlM f draft = .ok next) : draft.Steps next :=
  foldlM_preserves (fun hs hx => Relation.ReflTransGen.trans hs (hf (Steps.sound h hs) hx))
    .refl hfold

theorem sound_start (name : String) : Sound { unit := { name } } := ⟨.empty name, by simp, by simp⟩

/-- Reading the clauses of a unit consists of steps. -/
theorem steps_addAll {name : String} {clauses : Clauses}
    (hadd : Draft.addAll { unit := { name } } clauses = .ok next) :
    Steps { unit := { name } } next := by
  obtain ⟨defined, hdefined, hadd⟩ := bind_eq_ok hadd
  obtain ⟨withArguments, harguments, hadd⟩ := bind_eq_ok hadd
  obtain ⟨withInstrs, hinstrs, hadd⟩ := bind_eq_ok hadd
  obtain ⟨withCopies, hcopies, hadd⟩ := bind_eq_ok hadd
  obtain ⟨withFixed, hfixed, hadd⟩ := bind_eq_ok hadd
  obtain ⟨hdefined, hlist, hnodup, houtputs⟩ := defineAll_spec (sound_start name) hdefined
  have h := hdefined.steps.sound (sound_start name)
  have hnone : defined.argumentNames = [] := by
    rw [argumentNames, hdefined.arguments]
    rfl
  obtain ⟨harguments, hnames⟩ := addArguments_spec h hlist hdefined.instrs
    (by rw [hnone]; exact hnodup) harguments
  rw [hnone, List.nil_append] at hnames
  have h := harguments.sound h
  have hinstrs := addInstructions_spec h
    (fun entry hentry out hout hitems => hnames ▸ houtputs entry hentry out hout hitems) hinstrs
  have h := hinstrs.sound h
  have hcopies := Steps.foldlM steps_addCopy h hcopies
  have h := hcopies.sound h
  have hfixed := Steps.foldlM steps_addFixed h hfixed
  have hintervals := Steps.foldlM steps_addInterval (hfixed.sound h) hadd
  exact ((((hdefined.steps.trans harguments).trans hinstrs).trans hcopies).trans hfixed).trans
    hintervals

end Draft

namespace CodeUnit

variable {u : CodeUnit}

/-- An interval that is set has positions, and no other gets lost. -/
theorem hasInterval_of_setInterval {pool next : Pool} {v w : ValueId} {start stop : Position}
    (h : pool.setInterval v start stop = .ok next)
    (hw : v = w ∧ w < pool.values.size ∨ (pool.value w).hasInterval = true) :
    (next.value w).hasInterval = true := by
  obtain ⟨hlt, -, -, hvalue⟩ := Pool.setInterval_spec h
  rw [hvalue]
  split
  · simpa [Value.hasInterval] using hlt
  · next hother => exact hw.resolve_left hother

/-- Filling in intervals consists of steps. It gives an interval to every value, and takes none
away. -/
theorem fillIntervals_spec {draft : Draft} {extents : Extents} {vs : List ValueId}
    {filled : CodeUnit} (h : draft.Sound) (hvs : ∀ v ∈ vs, v ∈ draft.unit.values)
    (hfill : draft.unit.fillIntervals extents vs = (filled, none)) :
    draft.Steps { draft with unit := filled } ∧ filled.values = draft.unit.values ∧
      ∀ v, v ∈ vs ∨ (draft.unit.value v).hasInterval = true →
        (filled.value v).hasInterval = true := by
  induction vs generalizing draft with
  | nil =>
    cases hfill
    exact ⟨.refl, rfl, by simp⟩
  | cons v vs ih =>
    have hrest : ∀ w ∈ vs, w ∈ draft.unit.values := fun w hw => hvs w (List.mem_cons_of_mem _ hw)
    rw [fillIntervals] at hfill
    split at hfill
    · next hv =>
      obtain ⟨hsteps, hvalues, hall⟩ := ih h hrest hfill
      refine ⟨hsteps, hvalues, fun w hw => hall w ?_⟩
      obtain hw | hw := hw
      · obtain rfl | hw := List.mem_cons.mp hw
        · exact .inr hv
        · exact .inl hw
      · exact .inr hw
    · split at hfill
      · cases hfill
      · split at hfill
        · next start _ _ pool hset =>
          have hsize := h.built.consistent.mem_values.mp (hvs v List.mem_cons_self)
          have hstep : draft.Step { draft with unit := { draft.unit with pool } } := .interval hset
          obtain ⟨hsteps, hvalues, hall⟩ := ih (hstep.sound h) hrest hfill
          refine ⟨hsteps.head hstep, hvalues, fun w hw => hall w ?_⟩
          obtain hw | hw := hw
          · obtain rfl | hw := List.mem_cons.mp hw
            · exact .inr (hasInterval_of_setInterval hset (.inl ⟨rfl, hsize⟩))
            · exact .inl hw
          · exact .inr (hasInterval_of_setInterval hset (.inr hw))
        · cases hfill

/-- Reading a unit consists of steps, and in the end all values have intervals. -/
theorem steps_of_read {expr : SExpr} (h : ofSExpr expr = .ok u) :
    ∃ name bindings, Draft.Steps { unit := { name } } { unit := u, bindings } ∧
      ∀ v ∈ u.values, (u.value v).hasInterval = true := by
  unfold ofSExpr at h
  split at h
  · obtain ⟨clauses, -, h⟩ := bind_eq_ok h
    obtain ⟨draft, hdraft, h⟩ := bind_eq_ok h
    have hsteps := Draft.steps_addAll hdraft
    have hsound := hsteps.sound (Draft.sound_start _)
    split at h
    · cases h
    · split at h
      · next hfill =>
        cases h
        obtain ⟨hfilled, hvalues, hall⟩ := fillIntervals_spec hsound (fun _ hv => hv) hfill
        exact ⟨_, _, hsteps.trans hfilled, fun v hv => hall v (.inl (hvalues ▸ hv))⟩
      · cases h
  · cases h

/-- A unit that is read is built step by step, and all of its values have intervals. -/
theorem built_of_read {expr : SExpr} (h : ofSExpr expr = .ok u) :
    u.Built ∧ ∀ v ∈ u.values, (u.value v).hasInterval = true := by
  obtain ⟨name, bindings, hsteps, hintervals⟩ := steps_of_read h
  exact ⟨(hsteps.sound (Draft.sound_start name)).built, hintervals⟩

variable {expr : SExpr}

/-- No interval of a unit that is read is reversed. -/
theorem not_flipsAt_of_read (h : ofSExpr expr = .ok u) (position : Position) :
    ¬ u.FlipsAt position := by
  rintro ⟨v, hv, hflips, -⟩
  obtain ⟨hbuilt, hintervals⟩ := built_of_read h
  have hinterval := hintervals v (hbuilt.consistent.arguments v hv)
  rw [Value.hasInterval, decide_eq_true_iff] at hinterval
  exact absurd hflips (Int64.not_lt.mpr (Int64.le_of_lt hinterval))

/-- A unit that is read is well-formed, if no end of a pinned value wraps around and register
numbers do not run out. -/
theorem wellFormed_of_read (h : ofSExpr expr = .ok u)
    (hpinned : ∀ v ∈ u.values, ∀ register ∈ (u.value v).fixed, (u.value v).type.Fits register)
    {config : Config} (hwraps : u.NeverWraps config) : u.WellFormed config := by
  have hconsistent := (built_of_read h).1.consistent
  refine ⟨?_, hconsistent.arguments, fun i _ => hconsistent.inputs i, fun i _ => hconsistent.uses i,
    hpinned, hwraps⟩
  exact hconsistent.values.nodup_iff.mpr List.nodup_range

end CodeUnit
end RegisterAllocation
