import RegisterAllocation.Proofs.Intervals
import RegisterAllocation.Proofs.Tidiness

/-!
# Entries without faults

`Yields` says of an outcome of reading that it is no fault, and what holds of a result. Entering a
definition and reading an argument, a copy, a fixed register or an interval never ends in a fault:
the number of a new value is never taken, as long as there are no more names than words
(`Draft.Within.exists_addValue`), and an empty interval is refused before it is set.
-/

namespace RegisterAllocation

/-! ## Outcomes without faults -/

/-- An outcome of reading that is no fault, and a result of which `P` holds. -/
inductive Yields {α : Type} (P : α → Prop) : Except FormFailure α → Prop
  | ok {a : α} (h : P a) : Yields P (.ok a)
  | malformed (error : FormError) : Yields P (.error (.malformed error))

namespace Yields

variable {α β : Type} {P Q : α → Prop} {R : β → Prop} {x : Except FormFailure α}

/-- A condition on results can be weakened. -/
theorem mono (h : Yields P x) (himp : ∀ a, P a → Q a) : Yields Q x := by
  cases h with
  | ok h => exact .ok (himp _ h)
  | malformed => exact .malformed _

/-- A computation in two parts yields no fault if neither part does. -/
theorem bind {f : α → Except FormFailure β} (h : Yields P x) (hf : ∀ a, P a → Yields R (f a)) :
    Yields R (x >>= f) := by
  cases h with
  | ok h => exact hf _ h
  | malformed => exact .malformed _

/-- What holds of every result can be added. -/
theorem and (h : Yields P x) (hx : ∀ a, x = .ok a → Q a) : Yields (fun a => P a ∧ Q a) x := by
  cases h with
  | ok h => exact .ok ⟨h, hx _ rfl⟩
  | malformed => exact .malformed _

theorem of_forall (h : Yields P x) (hx : ∀ a, x = .ok a → Q a) : Yields Q x :=
  (h.and hx).mono fun _ h => h.2

/-- What is made without a fault. -/
theorem lift {made : Except Fault α} {a : α} (h : made = .ok a) :
    Yields (· = a) (FormFailure.lift made) := by
  rw [h]
  exact .ok rfl

/-- A fold yields no fault if its steps keep to the condition. -/
theorem foldlM {f : β → α → Except FormFailure β} {xs : List α} {s : β}
    (hf : ∀ s, R s → ∀ x ∈ xs, Yields R (f s x)) (hs : R s) : Yields R (xs.foldlM f s) := by
  induction xs generalizing s with
  | nil => exact .ok hs
  | cons x xs ih =>
    refine (hf s hs x List.mem_cons_self).bind fun t ht => ih ?_ ht
    exact fun s hs y hy => hf s hs y (List.mem_cons_of_mem _ hy)

end Yields

/-! ## What is written in a form -/

namespace SExpr

mutual

def symbols : SExpr → List String
  | int .. => []
  | symbol name _ => [name]
  | list items _ => symbolsAll items

def symbolsAll : List SExpr → List String
  | [] => []
  | item :: items => item.symbols ++ symbolsAll items

end

/-- The position that an instruction or a copy begins with. -/
def position? (entry : SExpr) : Option Position :=
  match entry.items with
  | .int n _ :: _ => some n
  | _ => none

/-- The positions that the instructions and the copies of a written unit begin with. -/
def positions (form : SExpr) : List Position :=
  (form.items.drop 2).flatMap fun clause =>
    if clause.head = "instructions" ∨ clause.head = "copies" then
      clause.items.tail.filterMap position?
    else []

/-- The symbols of an element are symbols of the list. -/
theorem symbols_subset_of_mem {expr : SExpr} {exprs : List SExpr} (h : expr ∈ exprs) :
    expr.symbols ⊆ symbolsAll exprs := by
  induction h with
  | head => exact List.subset_append_left _ _
  | tail other _ ih => exact List.subset_append_of_subset_right _ ih

theorem symbols_of_mem_items {expr item : SExpr} {names : List String}
    (hexpr : expr.symbols ⊆ names) (h : item ∈ expr.items) : item.symbols ⊆ names := by
  cases expr with
  | int | symbol => cases h
  | list items line => exact List.Subset.trans (symbols_subset_of_mem h) hexpr

end SExpr

/-- What reading knows a value by. -/
def Value.identity (value : Value) : Int64 × String × Option InstrId :=
  (value.number, value.name, value.definition)

/-- A value with a new number can be added. -/
theorem CodeUnit.exists_addValue (u : CodeUnit) {v : ValueId}
    (h : ∀ w ∈ u.values, (u.value w).number ≠ (u.value v).number) :
    ∃ added, u.addValue v = .ok added := by
  refine ⟨_, if_neg ?_⟩
  simpa using h

/-- An instruction with a higher number can be added. -/
theorem CodeUnit.exists_addInstr (u : CodeUnit) {i : InstrId} (hpositive : 0 < (u.instr i).number)
    (h : ∀ j ∈ u.instrs, (u.instr j).number < (u.instr i).number) :
    ∃ added, u.addInstr i = .ok added := by
  simp only [addInstr]
  split
  · next last hlast =>
    rw [if_neg (Int64.not_le.mpr (h last (List.mem_of_getLast? hlast)))]
    exact ⟨_, rfl⟩
  · rw [if_neg (Int64.not_le.mpr hpositive)]
    exact ⟨_, rfl⟩

/-- An instruction whose output is free can be made. -/
theorem Pool.exists_addInstr {pool : Pool} {instr : Instruction}
    (h : ∀ v ∈ instr.out, (pool.value v).definition = none) :
    ∃ i next, pool.addInstr instr = .ok (i, next) := by
  have hdefined : ∃ defined, pool.setDefinition pool.instrs.size instr.out = .ok defined := by
    cases hout : instr.out with
    | none => exact ⟨pool, rfl⟩
    | some v =>
      rw [setDefinition, h v hout]
      exact ⟨_, rfl⟩
  obtain ⟨defined, hdefined⟩ := hdefined
  rw [addInstr, hdefined]
  exact ⟨_, _, rfl⟩

namespace Draft

variable {draft next : Draft} {expr entry : SExpr} {names : List String} {positions : List Position}
  {outputs : List String}

/-- Values are numbered in order and bound to names, all of which are among `names`. Instructions
and copies are at some of the `positions`, and only values named in `outputs` are defined by
instructions. -/
structure Within (names : List String) (positions : List Position) (outputs : List String)
    (draft : Draft) : Prop where
  sound : draft.Sound
  numbered : draft.Numbered
  names : draft.bindings.map Prod.fst ⊆ names
  listed : ∀ i ∈ draft.unit.instrs, i < draft.unit.pool.instrs.size
  instrs : ∀ i ∈ draft.unit.instrs, (draft.unit.instr i).number ∈ positions
  copies : ∀ copy ∈ draft.unit.copies, copy.position ∈ positions
  defined : ∀ v, (draft.unit.value v).definition.isSome = true →
    (draft.unit.value v).name ∈ outputs

/-- Where the values are the same, with their numbers and names. -/
theorem Within.of_kept {outputs' : List String} (h : draft.Within names positions outputs)
    (hbuilt : next.unit.Built)
    (hvalues : next.unit.values = draft.unit.values) (hbindings : next.bindings = draft.bindings)
    (hnumber : ∀ v, (next.unit.value v).number = (draft.unit.value v).number)
    (hname : ∀ v, (next.unit.value v).name = (draft.unit.value v).name)
    (hlisted : ∀ i ∈ next.unit.instrs, i < next.unit.pool.instrs.size)
    (hinstrs : ∀ i ∈ next.unit.instrs, (next.unit.instr i).number ∈ positions)
    (hcopies : ∀ copy ∈ next.unit.copies, copy.position ∈ positions)
    (hdefined : ∀ v, (next.unit.value v).definition.isSome = true →
      (draft.unit.value v).name ∈ outputs') :
    next.Within names positions outputs' := by
  refine ⟨⟨hbuilt, ?_, ?_⟩, ⟨?_, ?_, ?_, ?_⟩, ?_, hlisted, hinstrs, hcopies, ?_⟩
  · rw [hvalues, hbindings]
    exact h.sound.bound
  · simp only [hbindings, hname]
    exact h.sound.named
  · simp only [hvalues, hnumber]
    exact h.numbered.numbers
  · rw [hvalues]
    exact h.numbered.values
  · rw [hbindings]
    exact h.numbered.names
  · simp only [hvalues, hbindings, hname]
    exact h.numbered.bindings
  · rw [hbindings]
    exact h.names
  · simpa only [hname] using hdefined

/-- Where instructions and definitions are the same, too. -/
theorem Within.of_fields (h : draft.Within names positions outputs) (hbuilt : next.unit.Built)
    (hvalues : next.unit.values = draft.unit.values) (hbindings : next.bindings = draft.bindings)
    (hkept : ∀ v, (next.unit.value v).identity = (draft.unit.value v).identity)
    (hinstrs : next.unit.instrs = draft.unit.instrs)
    (hpool : next.unit.pool.instrs = draft.unit.pool.instrs)
    (hcopies : ∀ copy ∈ next.unit.copies, copy.position ∈ positions) :
    next.Within names positions outputs := by
  have hdefinition : ∀ v, (next.unit.value v).definition = (draft.unit.value v).definition :=
    fun v => congrArg (·.2.2) (hkept v)
  refine h.of_kept hbuilt hvalues hbindings (fun v => congrArg (·.1) (hkept v))
    (fun v => congrArg (·.2.1) (hkept v)) ?_ ?_ hcopies fun v hv => h.defined v ?_
  · rw [hinstrs, hpool]
    exact h.listed
  · simpa only [CodeUnit.instr, Pool.instr, hinstrs, hpool] using h.instrs
  · rwa [← hdefinition]

/-- Each value has a name of its own. -/
theorem Within.length_values (h : draft.Within names positions outputs) :
    draft.unit.values.length ≤ draft.bindings.length := by
  have hnodup : draft.unit.values.Nodup :=
    h.sound.built.consistent.values.nodup_iff.mpr List.nodup_range
  have hmap : (draft.unit.values.map fun v => ((draft.unit.value v).name, v)).Nodup :=
    hnodup.map fun v w heq => congrArg Prod.snd heq
  have hsubset : (draft.unit.values.map fun v => ((draft.unit.value v).name, v)) ⊆
      draft.bindings := by
    intro binding hbinding
    obtain ⟨v, hv, rfl⟩ := List.mem_map.mp hbinding
    exact h.numbered.bindings v hv
  simpa using (hmap.subperm hsubset).length_le

/-- There are numbers for as many values as there are names. -/
theorem Within.length_lt (h : draft.Within names positions outputs) (hsize : names.length ≤ 2 ^ 64)
    {name : String} (hmem : name ∈ names) (hname : draft.bindings.lookup name = none) :
    draft.unit.values.length < 2 ^ 64 := by
  have hnodup : (name :: draft.bindings.map Prod.fst).Nodup :=
    List.nodup_cons.mpr ⟨not_mem_of_lookup hname, h.numbered.names⟩
  have hlength := (hnodup.subperm (List.cons_subset.mpr ⟨hmem, h.names⟩)).length_le
  have hvalues := h.length_values
  rw [List.length_cons, List.length_map] at hlength
  omega

/-- Different numbers stay different as words. -/
theorem ofNat_ne_of_lt {m n : Nat} (hlt : m < n) (hn : n < 2 ^ 64) :
    Int64.ofNat m ≠ Int64.ofNat n := by
  intro heq
  have heq : m % 2 ^ 64 = n % 2 ^ 64 := congrArg (fun x => x.toBitVec.toNat) heq
  omega

/-- The number of a new value is not taken. -/
theorem Within.exists_addValue (h : draft.Within names positions outputs)
    (hsize : names.length ≤ 2 ^ 64) {name : String} (hmem : name ∈ names)
    (hname : draft.bindings.lookup name = none)
    (type : MoveType) : ∃ v next, draft.addValue name type = .ok (v, next) := by
  have hconsistent := h.sound.built.consistent
  have hlength := h.length_lt hsize hmem hname
  have hvalues : draft.unit.values.length = draft.unit.pool.values.size := by
    rw [hconsistent.values.length_eq, List.length_range]
  have hnew : (draft.unit.pool.addValue (draft.newValue name type)).2.value
      draft.unit.pool.values.size = draft.newValue name type := Pool.value_push.trans (if_pos rfl)
  have hfree : ∀ w ∈ draft.unit.values,
      ((draft.unit.pool.addValue (draft.newValue name type)).2.value w).number ≠
        ((draft.unit.pool.addValue (draft.newValue name type)).2.value
          draft.unit.pool.values.size).number := by
    intro w hw
    have hlt := hconsistent.mem_values.mp hw
    have hnumber : (draft.unit.pool.value w).number = Int64.ofNat w := h.numbered.numbers w hw
    rw [hnew, Pool.value_push_of_lt hlt, hnumber]
    exact ofNat_ne_of_lt (hvalues ▸ hlt) hlength
  obtain ⟨added, hadded⟩ := CodeUnit.exists_addValue
    { draft.unit with pool := (draft.unit.pool.addValue (draft.newValue name type)).2 } hfree
  refine ⟨draft.unit.pool.values.size,
    { unit := added, bindings := (name, draft.unit.pool.values.size) :: draft.bindings }, ?_⟩
  exact congrArg (fun made => FormFailure.lift made >>= fun unit => Except.ok
    (draft.unit.pool.values.size,
      Draft.mk unit ((name, draft.unit.pool.values.size) :: draft.bindings))) hadded

/-- A value with a name of the form keeps the draft within the form. -/
theorem Within.addValue (h : draft.Within names positions outputs) {name : String}
    (hmem : name ∈ names) (hname : draft.bindings.lookup name = none) {type : MoveType}
    {v : ValueId} (hadd : draft.addValue name type = .ok (v, next)) :
    next.Within names positions outputs := by
  have hsound := (Step.value hname hadd).sound h.sound
  have hnumbered := h.numbered.addValue h.sound hname hadd
  obtain ⟨-, rfl⟩ := addValue_spec hadd
  refine ⟨hsound, hnumbered, List.cons_subset.mpr ⟨hmem, h.names⟩, h.listed, h.instrs, h.copies,
    fun w => ?_⟩
  rw [CodeUnit.value, Pool.value_push]
  split
  · exact fun hdefined => absurd hdefined (by simp [newValue])
  · exact h.defined w

/-- The output of an instruction is written in it. -/
theorem mem_items_of_outputOf? {items : List SExpr} {out : SExpr} (h : outputOf? items = some out) :
    out ∈ items := by
  unfold outputOf? at h
  split at h
  · next rest =>
    split at h
    · cases rest <;> cases h <;> simp
    · cases h
      simp
  · cases h
    simp
  · cases h
/-- The value of an interval is written in it. -/
theorem mem_items_of_intervalParts? {value start stop : SExpr}
    (h : intervalParts? entry = some (value, start, stop)) : value ∈ entry.items := by
  unfold intervalParts? at h
  split at h <;> cases h <;> simp [SExpr.items]

/-- What looking a value up leaves behind: perhaps a new value, and no instructions. -/
structure Finds (names : List String) (positions : List Position) (outputs : List String)
    (draft next : Draft) : Prop where
  within : next.Within names positions outputs
  values : draft.unit.values ⊆ next.unit.values
  listed : next.unit.instrs = draft.unit.instrs
  made : next.unit.pool.instrs = draft.unit.pool.instrs

theorem Within.finds (h : draft.Within names positions outputs) :
    draft.Finds names positions outputs draft := ⟨h, List.Subset.refl _, rfl, rfl⟩

/-- A value that is added can be found. -/
theorem finds_addValue (h : draft.Within names positions outputs) {name : String}
    (hmem : name ∈ names) (hname : draft.bindings.lookup name = none) {type : MoveType}
    {v : ValueId} (hadd : draft.addValue name type = .ok (v, next)) :
    draft.Finds names positions outputs next := by
  have hwithin := h.addValue hmem hname hadd
  have hvalues := (Step.value hname hadd).values
  obtain ⟨-, rfl⟩ := addValue_spec hadd
  exact ⟨hwithin, hvalues, rfl, rfl⟩

section Sized

variable (hsize : names.length ≤ 2 ^ 64)
include hsize

/-! ### Definitions -/

/-- Defining a value is without fault. -/
theorem yields_define (h : draft.Within names positions outputs) (hexpr : expr.symbols ⊆ names) :
    Yields (fun result => draft.Finds names positions outputs result.2 ∧
      result.1 ∈ result.2.unit.values) (draft.define expr) := by
  refine Yields.and ?_ fun result hresult => (define_spec h.sound hresult).2.2.1
  unfold define
  split
  · next name nameLine typeName typeLine line =>
    have hmem : name ∈ names := hexpr (by simp [SExpr.symbols, SExpr.symbolsAll])
    split
    · exact .malformed _
    · next type _ =>
      split
      · next hlookup =>
        obtain ⟨v, next, hadd⟩ := h.exists_addValue hsize hmem hlookup type
        rw [hadd]
        exact .ok (finds_addValue h hmem hlookup hadd)
      · dsimp only
        split
        · exact .ok h.finds
        · exact .malformed _
  · exact .malformed _

/-- Looking up a value is without fault. -/
theorem yields_lookup (h : draft.Within names positions outputs) (hexpr : expr.symbols ⊆ names) :
    Yields (fun result => draft.Finds names positions outputs result.2 ∧
      result.1 ∈ result.2.unit.values) (draft.lookup expr) := by
  unfold lookup
  split
  · exact yields_define hsize h hexpr
  · split
    · next hlookup => exact .ok ⟨h.finds, (lookup_spec_of_bound h.sound hlookup).1⟩
    · exact .malformed _
  · exact .malformed _

/-- Defining an argument is without fault. -/
theorem yields_defineArgument (h : draft.Within names positions outputs)
    (hentry : entry.symbols ⊆ names) :
    Yields (Within names positions outputs) (draft.defineArgument entry) := by
  unfold defineArgument
  split
  · exact .malformed _
  · exact (yields_define hsize h hentry).bind fun _ hresult => .ok hresult.1.within

/-- Defining the output of an instruction is without fault. -/
theorem yields_defineOutput (h : draft.Within names positions outputs)
    (hentry : entry.symbols ⊆ names) :
    Yields (Within names positions outputs) (draft.defineOutput entry) := by
  unfold defineOutput
  split
  · exact .malformed _
  · next hout =>
    dsimp only
    split
    · exact .malformed _
    · have hsymbols := SExpr.symbols_of_mem_items hentry (mem_items_of_outputOf? hout)
      exact (yields_define hsize h hsymbols).bind fun _ hresult => .ok hresult.1.within
  · exact .ok h

/-- Defining the target of a copy is without fault. -/
theorem yields_defineTarget (h : draft.Within names positions outputs)
    (hentry : entry.symbols ⊆ names) :
    Yields (Within names positions outputs) (draft.defineTarget entry) := by
  unfold defineTarget
  split
  · next position source items line entryLine =>
    have hsymbols : (SExpr.list items line).symbols ⊆ names :=
      SExpr.symbols_of_mem_items hentry (by simp [SExpr.items])
    exact (yields_define hsize h hsymbols).bind fun _ hresult => .ok hresult.1.within
  · exact .ok h

/-- Defining the value of an interval is without fault. -/
theorem yields_defineInterval (h : draft.Within names positions outputs)
    (hentry : entry.symbols ⊆ names) :
    Yields (Within names positions outputs) (draft.defineInterval entry) := by
  unfold defineInterval
  split
  · next name nameLine type start stop line =>
    have hsymbols : (SExpr.list [.symbol name nameLine, type] line).symbols ⊆ names := by
      refine List.Subset.trans ?_ hentry
      simp [SExpr.symbols, SExpr.symbolsAll]
    exact (yields_define hsize h hsymbols).bind fun _ hresult => .ok hresult.1.within
  · exact .ok h

/-! ### Clauses -/

/-- Adding an argument is without fault. -/
theorem yields_addArgument (h : draft.Within names positions outputs)
    (hentry : entry.symbols ⊆ names) :
    Yields (Within names positions outputs) (draft.addArgument entry) := by
  refine (yields_lookup hsize h hentry).bind fun ⟨v, found⟩ ⟨⟨hfound, _, _, _⟩, hv⟩ => .ok ?_
  exact hfound.of_fields (hfound.sound.built.argument hv) rfl rfl
    (fun w => Pool.field_modifyValue Value.identity fun _ => rfl) rfl rfl hfound.copies

/-- Adding a copy is without fault. -/
theorem yields_addCopy (h : draft.Within names positions outputs) (hentry : entry.symbols ⊆ names)
    (hposition : ∀ position ∈ entry.position?, position ∈ positions) :
    Yields (Within names positions outputs) (draft.addCopy entry) := by
  unfold addCopy
  split
  · next position source target line =>
    cases position with
    | symbol | list => exact .malformed _
    | int n nLine =>
      have hn : n ∈ positions := hposition n rfl
      change Yields _ (if n ≤ 0 then _ else _)
      split
      · exact .malformed _
      have hsource : source.symbols ⊆ names :=
        SExpr.symbols_of_mem_items hentry (by simp [SExpr.items])
      have htarget : target.symbols ⊆ names :=
        SExpr.symbols_of_mem_items hentry (by simp [SExpr.items])
      refine (yields_lookup hsize h hsource).bind ?_
      rintro ⟨v, first⟩ ⟨hfirst, hv⟩
      refine (yields_lookup hsize hfirst.within htarget).bind ?_
      rintro ⟨w, second⟩ ⟨⟨hsecond, hvalues, -, -⟩, hw⟩
      apply Yields.ok
      refine hsecond.of_fields (hsecond.sound.built.copy (hvalues hv) hw) rfl rfl
        (fun _ => rfl) rfl rfl fun copy hcopy => ?_
      obtain hcopy | rfl := List.mem_append.mp hcopy |>.imp_right List.mem_singleton.mp
      · exact hsecond.copies copy hcopy
      · exact hn
  · exact .malformed _

/-- Noting a fixed register is without fault. -/
theorem yields_addFixed (h : draft.Within names positions outputs)
    (hentry : entry.symbols ⊆ names) :
    Yields (Within names positions outputs) (draft.addFixed entry) := by
  unfold addFixed
  split
  · next value register line =>
    cases register with
    | symbol | list => exact .malformed _
    | int n nLine =>
      change Yields _ (if n < 0 then _ else _)
      split
      · exact .malformed _
      have hvalue : value.symbols ⊆ names :=
        SExpr.symbols_of_mem_items hentry (by simp [SExpr.items])
      refine (yields_lookup hsize h hvalue).bind ?_
      rintro ⟨v, found⟩ ⟨⟨hfound, -, -, -⟩, -⟩
      apply Yields.ok
      exact hfound.of_fields (hfound.sound.built.pinned n) rfl rfl
        (fun w => Pool.field_modifyValue Value.identity fun _ => rfl) rfl rfl hfound.copies
  · exact .malformed _

/-- Adding an interval is without fault. -/
theorem yields_addInterval (h : draft.Within names positions outputs)
    (hentry : entry.symbols ⊆ names) :
    Yields (Within names positions outputs) (draft.addInterval entry) := by
  unfold addInterval
  split
  · next value start stop hparts =>
    refine (yields_lookup hsize h
      (SExpr.symbols_of_mem_items hentry (mem_items_of_intervalParts? hparts))).bind
      fun ⟨v, found⟩ ⟨⟨hfound, _, _, _⟩, _⟩ => ?_
    cases start with
    | symbol | list => exact .malformed _
    | int start =>
      cases stop with
      | symbol | list => exact .malformed _
      | int stop =>
        change Yields _ (if stop ≤ start then _ else _)
        split
        · exact .malformed _
        next hlt =>
        obtain ⟨pool, hset⟩ := found.unit.pool.exists_setInterval v (Int64.not_le.mp hlt)
        refine (Yields.lift hset).bind fun _ heq => .ok (heq ▸ ?_)
        obtain ⟨-, hinstrs, -⟩ := Pool.setInterval_spec hset
        exact hfound.of_fields (hfound.sound.built.interval hset) rfl rfl
          (fun w => Pool.field_setInterval Value.identity (fun _ _ _ => rfl) hset) rfl hinstrs
          hfound.copies
  · exact .malformed _

end Sized

end Draft
end RegisterAllocation
