import RegisterAllocation.Proofs.SExpr.Printing
import RegisterAllocation.Proofs.Tidiness
import Mathlib.Data.List.Forall2

/-!
# The order of clauses

What a written unit means does not depend on how it is laid out. Reading looks at the lines of a
form only to report them, so that forms with the same trees have the same outcome
(`CodeUnit.agree_ofSExpr`). The clauses of a form are found by their heads, so that their order does
not matter (`Clauses.agree_foldlM_of_perm`). Together, a form whose clauses are moved to other
places and other lines is read as the same unit (`CodeUnit.ofSExpr_reordered`).
-/

namespace RegisterAllocation

/-! ## Outcomes that agree -/

/-- Two outcomes of reading: results that are related, the same fault, or two refusals for whatever
reasons. -/
inductive Agree {α β : Type} (R : α → β → Prop) :
    Except FormFailure α → Except FormFailure β → Prop
  | ok {a : α} {b : β} (h : R a b) : Agree R (.ok a) (.ok b)
  | malformed (error error' : FormError) :
    Agree R (.error (.malformed error)) (.error (.malformed error'))
  | fault (fault : Fault) : Agree R (.error (.fault fault)) (.error (.fault fault))

namespace Agree

variable {α β γ δ : Type} {R : α → β → Prop} {S : γ → δ → Prop}

theorem refl : ∀ x : Except FormFailure α, Agree Eq x x
  | .ok _ => .ok rfl
  | .error (.malformed _) => .malformed _ _
  | .error (.fault _) => .fault _

/-- Agreement goes on through a third outcome. -/
theorem trans {x y z : Except FormFailure α} (h : Agree Eq x y) (h' : Agree Eq y z) :
    Agree Eq x z := by
  cases h with
  | ok h =>
    subst h
    exact h'
  | malformed => cases h' with | malformed => exact .malformed _ _
  | fault => exact h'

/-- Computations agree if their first parts do, and the rest does on results that correspond. -/
theorem bind {x : Except FormFailure α} {y : Except FormFailure β}
    {f : α → Except FormFailure γ} {g : β → Except FormFailure δ} (h : Agree R x y)
    (hf : ∀ a b, R a b → Agree S (f a) (g b)) : Agree S (x >>= f) (y >>= g) := by
  cases h with
  | ok h => exact hf _ _ h
  | malformed => exact .malformed _ _
  | fault => exact .fault _

/-- Computations that agree can be continued in the same way. -/
theorem bind_eq {x y : Except FormFailure α} {f : α → Except FormFailure γ}
    {g : α → Except FormFailure δ} (h : Agree Eq x y) (hf : ∀ a, Agree S (f a) (g a)) :
    Agree S (x >>= f) (y >>= g) :=
  h.bind fun a _ hab => hab ▸ hf a

/-- Computations that agree succeed with the same results. -/
theorem eq_ok_iff {x y : Except FormFailure α} (h : Agree Eq x y) {a : α} :
    x = .ok a ↔ y = .ok a := by
  cases h with
  | ok h => rw [h]
  | malformed | fault => simp

/-- Computations that agree end in the same faults. -/
theorem eq_fault_iff {x y : Except FormFailure α} (h : Agree Eq x y) {fault : Fault} :
    x = .error (.fault fault) ↔ y = .error (.fault fault) := by
  cases h with
  | ok h => rw [h]
  | malformed | fault => simp

/-- Folds agree if their steps do. -/
theorem foldlM {σ τ : Type} {T : σ → τ → Prop} {f : σ → α → Except FormFailure σ}
    {g : τ → β → Except FormFailure τ} {xs : List α} {ys : List β} (h : List.Forall₂ R xs ys)
    (hf : ∀ s t x y, T s t → R x y → Agree T (f s x) (g t y)) {s : σ} {t : τ} (hst : T s t) :
    Agree T (xs.foldlM f s) (ys.foldlM g t) := by
  induction h generalizing s t with
  | nil => exact .ok hst
  | cons hx _ ih => exact (hf _ _ _ _ hst hx).bind fun _ _ => ih

/-- Folds from the same state agree if their steps do. -/
theorem foldlM_eq {σ : Type} {f : σ → α → Except FormFailure σ} {g : σ → β → Except FormFailure σ}
    {xs : List α} {ys : List β} (h : List.Forall₂ R xs ys)
    (hf : ∀ s x y, R x y → Agree Eq (f s x) (g s y)) (s : σ) :
    Agree Eq (xs.foldlM f s) (ys.foldlM g s) :=
  foldlM h (fun _ _ x y hst hx => hst ▸ hf _ x y hx) rfl

end Agree

/-! ## Expressions on other lines -/

namespace SExpr

/-- The expressions are the same up to their lines. -/
inductive SameTree : SExpr → SExpr → Prop
  | int (value : Int64) (line line' : Nat) : SameTree (.int value line) (.int value line')
  | symbol (name : String) (line line' : Nat) : SameTree (.symbol name line) (.symbol name line')
  | list {items items' : List SExpr} (line line' : Nat) (h : List.Forall₂ SameTree items items') :
    SameTree (.list items line) (.list items' line')

mutual

/-- Expressions that are equal on one line have the same tree. -/
theorem sameTree_of_onLine :
    ∀ {expr expr' : SExpr}, expr.onLine 0 = expr'.onLine 0 → SameTree expr expr'
  | .int .., expr', h => by
    cases expr' <;> simp only [onLine, reduceCtorEq, int.injEq] at h
    exact h.1 ▸ .int ..
  | .symbol .., expr', h => by
    cases expr' <;> simp only [onLine, reduceCtorEq, symbol.injEq] at h
    exact h.1 ▸ .symbol ..
  | .list items _, expr', h => by
    cases expr' <;> simp only [onLine, reduceCtorEq, list.injEq] at h
    exact .list _ _ (sameTree_of_sameTrees h.1)

/-- Lists of expressions that are equal on one line have the same trees one by one. -/
theorem sameTree_of_sameTrees :
    ∀ {exprs exprs' : List SExpr}, SameTrees exprs exprs' → List.Forall₂ SameTree exprs exprs'
  | [], exprs', h => by
    cases exprs' with
    | nil => exact .nil
    | cons => simp [SameTrees, onLineAll] at h
  | expr :: exprs, exprs', h => by
    cases exprs' with
    | nil => simp [SameTrees, onLineAll] at h
    | cons expr' exprs' =>
      simp only [SameTrees, onLineAll, List.cons.injEq] at h
      exact .cons (sameTree_of_onLine h.1) (sameTree_of_sameTrees h.2)

end

variable {expr expr' : SExpr}

/-- The head of a list does not depend on lines. -/
theorem SameTree.head (h : SameTree expr expr') : expr.head = expr'.head := by
  cases h with
  | int | symbol => rfl
  | list _ _ h =>
    cases h with
    | nil => rfl
    | cons h => cases h <;> rfl

/-- The elements of a list have the same trees. -/
theorem SameTree.items (h : SameTree expr expr') :
    List.Forall₂ SameTree expr.items expr'.items := by
  cases h with
  | int | symbol => exact .nil
  | list _ _ h => exact h

theorem SameTree.isList (h : SameTree expr expr') : expr.isList = expr'.isList := by
  cases h <;> rfl

/-- An integer is read the same way whatever its line. -/
theorem SameTree.toInt (h : SameTree expr expr') (what : String) :
    Agree Eq (expr.toInt what) (expr'.toInt what) := by
  cases h with
  | int => exact .ok rfl
  | symbol | list => exact .malformed _ _

end SExpr

namespace Draft

open SExpr

variable {expr expr' entry entry' : SExpr} {items items' : List SExpr}

/-- A value is defined by its name, whatever the line of the name. -/
theorem agree_define (draft : Draft) (h : SameTree expr expr') :
    Agree Eq (draft.define expr) (draft.define expr') := by
  cases h with
  | int | symbol => exact .malformed _ _
  | list _ _ h =>
    rcases h with _ | ⟨hname, _ | ⟨htype, _ | _⟩⟩
    · exact .malformed _ _
    · cases hname <;> exact .malformed _ _
    · cases hname with
      | int | list => exact .malformed _ _
      | symbol name =>
        cases htype with
        | int | list => exact .malformed _ _
        | symbol typeName =>
          simp only [define]
          cases MoveType.ofName? typeName with
          | none => exact .malformed _ _
          | some type =>
            cases draft.bindings.lookup name with
            | none => exact .refl _
            | some v =>
              dsimp only
              split
              · exact .ok rfl
              · exact .malformed _ _
    · cases hname <;> cases htype <;> exact .malformed _ _

/-- A value is looked up by its name, whatever the line of the name. -/
theorem agree_lookup (draft : Draft) (h : SameTree expr expr') :
    Agree Eq (draft.lookup expr) (draft.lookup expr') := by
  cases h with
  | int => exact .malformed _ _
  | symbol name =>
    simp only [lookup]
    cases draft.bindings.lookup name with
    | none => exact .malformed _ _
    | some v => exact .ok rfl
  | list line line' h => exact agree_define draft (.list line line' h)

/-! ### Definitions -/

/-- An argument is defined the same way whatever the lines of its entry. -/
theorem agree_defineArgument (draft : Draft) (h : SameTree entry entry') :
    Agree Eq (draft.defineArgument entry) (draft.defineArgument entry') := by
  unfold defineArgument
  rw [h.head]
  split
  · exact .malformed _ _
  · exact (draft.agree_define h).bind_eq fun _ => .refl _

/-- The output of an instruction stands in the same place. -/
theorem sameTree_outputOf? (h : List.Forall₂ SameTree items items') :
    Option.Rel SameTree (outputOf? items) (outputOf? items') := by
  rcases h with _ | ⟨_, _ | ⟨hop, _ | ⟨hthird, hrest⟩⟩⟩
  · exact .none
  · exact .none
  · cases hop <;> exact .none
  · cases hop with
    | int | list => exact .some hthird
    | symbol name =>
      simp only [outputOf?]
      split
      · cases hrest with
        | nil => exact .some hthird
        | cons hout => exact .some hout
      · exact .some hthird

/-- The output of an instruction is defined the same way whatever the lines. -/
theorem agree_defineOutput (draft : Draft) (h : SameTree entry entry') :
    Agree Eq (draft.defineOutput entry) (draft.defineOutput entry') := by
  unfold defineOutput
  have hrel := sameTree_outputOf? h.items
  generalize outputOf? entry.items = out, outputOf? entry'.items = out' at hrel ⊢
  cases hrel with
  | none => exact .malformed _ _
  | some hout =>
    cases hout with
    | int | symbol => exact .ok rfl
    | list line line' hitems =>
      cases hitems with
      | nil => exact .ok rfl
      | cons hfirst hrest =>
        have hout := SameTree.list line line' (.cons hfirst hrest)
        dsimp only
        rw [hout.head]
        split
        · exact .malformed _ _
        · exact (draft.agree_define hout).bind_eq fun _ => .refl _

/-- The target of a copy is defined the same way whatever the lines. -/
theorem agree_defineTarget (draft : Draft) (h : SameTree entry entry') :
    Agree Eq (draft.defineTarget entry) (draft.defineTarget entry') := by
  cases h with
  | int | symbol => exact .ok rfl
  | list _ _ h =>
    rcases h with _ | ⟨_, _ | ⟨_, _ | ⟨htarget, _ | _⟩⟩⟩
    · exact .ok rfl
    · exact .ok rfl
    · exact .ok rfl
    · cases htarget with
      | int | symbol => exact .ok rfl
      | list line line' h =>
        exact (draft.agree_define (.list line line' h)).bind_eq fun _ => .refl _
    · cases htarget <;> exact .ok rfl

/-- The value of an interval is defined the same way whatever the lines. -/
theorem agree_defineInterval (draft : Draft) (h : SameTree entry entry') :
    Agree Eq (draft.defineInterval entry) (draft.defineInterval entry') := by
  cases h with
  | int | symbol => exact .ok rfl
  | list line line' h =>
    rcases h with _ | ⟨hname, _ | ⟨htype, _ | ⟨_, _ | ⟨_, _ | _⟩⟩⟩⟩
    · exact .ok rfl
    · cases hname <;> exact .ok rfl
    · cases hname <;> exact .ok rfl
    · cases hname <;> exact .ok rfl
    · cases hname with
      | int | list => exact .ok rfl
      | symbol name nameLine nameLine' =>
        have hpair := SameTree.list line line' (.cons (.symbol name nameLine nameLine')
          (.cons htype .nil))
        exact (draft.agree_define hpair).bind_eq fun _ => .refl _
    · cases hname <;> exact .ok rfl

/-! ### Instructions -/

/-- The output of an instruction is found the same way whatever the lines. -/
theorem agree_output (draft : Draft) (h : SameTree expr expr') :
    Agree Eq (draft.output expr) (draft.output expr') := by
  cases h with
  | int | symbol => exact .malformed _ _
  | list line line' h =>
    cases h with
    | nil => exact .ok rfl
    | cons hfirst hrest =>
      exact (draft.agree_lookup (.list line line' (.cons hfirst hrest))).bind_eq fun _ => .refl _

/-- The inputs of an instruction are found the same way whatever the lines. -/
theorem agree_inputs (draft : Draft) (h : List.Forall₂ SameTree items items') :
    Agree Eq (draft.inputs items) (draft.inputs items') := by
  induction h with
  | nil => exact .ok rfl
  | cons hfirst _ ih =>
    unfold inputs
    rw [hfirst.isList]
    split
    · exact .malformed _ _
    · exact (draft.agree_lookup hfirst).bind_eq fun _ => ih.bind_eq fun _ => .refl _

/-- A literal is read the same way whatever its line. -/
theorem agree_literal (h : SameTree expr expr') : Agree Eq (literal expr) (literal expr') := by
  cases h with
  | int => exact .ok rfl
  | symbol name =>
    simp only [literal]
    cases Literal.ofFloatText name.toList with
    | unknown => exact .malformed _ _
    | int | ratio | binary => exact .ok rfl
  | list => exact .malformed _ _

/-- An operation is added the same way, although errors name the entry. -/
theorem agree_addOperation (draft : Draft) (number : Int64) (name : String) (opcode : Opcode)
    (numeric : Option NumericType) (entry entry' : SExpr)
    (h : List.Forall₂ SameTree items items') :
    Agree Eq (draft.addOperation entry number name opcode numeric items)
      (draft.addOperation entry' number name opcode numeric items') := by
  unfold addOperation
  split
  · rcases h with _ | ⟨hout, _ | ⟨hvalue, _ | _⟩⟩
    · exact .malformed _ _
    · exact .malformed _ _
    · exact (draft.agree_output hout).bind_eq fun _ =>
        (agree_literal hvalue).bind_eq fun _ => .refl _
    · exact .malformed _ _
  split
  · rcases h with _ | ⟨hout, _ | ⟨hleft, _ | ⟨hright, _ | _⟩⟩⟩
    · exact .malformed _ _
    · exact .malformed _ _
    · exact .malformed _ _
    · refine (draft.agree_inputs (.cons hleft (.cons hright .nil))).bind_eq fun read => ?_
      match read with
      | [] | [_] | _ :: _ :: _ :: _ => exact .fault _
      | [_, _] => exact (draft.agree_output hout).bind_eq fun _ => .refl _
    · exact .malformed _ _
  split
  · rcases h with _ | ⟨hmethod, _ | ⟨hout, hinputs⟩⟩
    · exact .malformed _ _
    · cases hmethod <;> exact .malformed _ _
    · cases hmethod with
      | int | list => exact .malformed _ _
      | symbol =>
        exact (draft.agree_output hout).bind_eq fun ⟨_, later⟩ =>
          (later.agree_inputs hinputs).bind_eq fun _ => .refl _
  · cases h with
    | nil => exact .malformed _ _
    | cons hout hinputs =>
      dsimp only
      rw [hinputs.length_eq]
      split
      · exact .malformed _ _
      · exact (draft.agree_output hout).bind_eq fun ⟨_, later⟩ =>
          (later.agree_inputs hinputs).bind_eq fun _ => .refl _

/-- An instruction is read the same way whatever the lines of its entry. -/
theorem agree_readInstruction (draft : Draft) (h : SameTree entry entry') :
    Agree Eq (draft.readInstruction entry) (draft.readInstruction entry') := by
  cases h with
  | int | symbol => exact .fault _
  | list _ _ h =>
    rcases h with _ | ⟨hnumber, _ | ⟨hop, hoperands⟩⟩
    · exact .fault _
    · exact .fault _
    · refine (hnumber.toInt _).bind_eq fun n => ?_
      dsimp only
      split
      · exact .malformed _ _
      · cases hop with
        | int | list => exact .malformed _ _
        | symbol name =>
          dsimp only
          cases opcodeOfName? name with
          | none => exact .malformed _ _
          | some operation => exact draft.agree_addOperation n name _ _ _ _ hoperands

/-- Instructions are added the same way whatever the lines of their entries. -/
theorem agree_addInstructions (draft : Draft) (last : Int64)
    (h : List.Forall₂ SameTree items items') :
    Agree Eq (draft.addInstructions last items) (draft.addInstructions last items') := by
  induction h generalizing draft last with
  | nil => exact .ok rfl
  | cons hentry _ ih =>
    refine (draft.agree_readInstruction hentry).bind_eq fun ⟨i, later⟩ => ?_
    dsimp only
    split
    · exact .malformed _ _
    · exact (Agree.refl _).bind_eq fun _ => ih _ _

/-! ### Other clauses -/

/-- An argument is added the same way whatever the lines of its entry. -/
theorem agree_addArgument (draft : Draft) (h : SameTree entry entry') :
    Agree Eq (draft.addArgument entry) (draft.addArgument entry') :=
  (draft.agree_lookup h).bind_eq fun _ => .refl _

/-- A copy is added the same way whatever the lines of its entry. -/
theorem agree_addCopy (draft : Draft) (h : SameTree entry entry') :
    Agree Eq (draft.addCopy entry) (draft.addCopy entry') := by
  cases h with
  | int | symbol => exact .malformed _ _
  | list _ _ h =>
    rcases h with _ | ⟨hposition, _ | ⟨hsource, _ | ⟨htarget, _ | _⟩⟩⟩
    · exact .malformed _ _
    · exact .malformed _ _
    · exact .malformed _ _
    · refine (hposition.toInt _).bind_eq fun n => ?_
      dsimp only
      split
      · exact .malformed _ _
      · exact (draft.agree_lookup hsource).bind_eq fun ⟨_, later⟩ =>
          (later.agree_lookup htarget).bind_eq fun _ => .refl _
    · exact .malformed _ _

/-- A fixed register is noted the same way whatever the lines of its entry. -/
theorem agree_addFixed (draft : Draft) (h : SameTree entry entry') :
    Agree Eq (draft.addFixed entry) (draft.addFixed entry') := by
  cases h with
  | int | symbol => exact .malformed _ _
  | list _ _ h =>
    rcases h with _ | ⟨hvalue, _ | ⟨hregister, _ | _⟩⟩
    · exact .malformed _ _
    · exact .malformed _ _
    · refine (hregister.toInt _).bind_eq fun n => ?_
      dsimp only
      split
      · exact .malformed _ _
      · exact (draft.agree_lookup hvalue).bind_eq fun _ => .refl _
    · exact .malformed _ _

/-- The parts of an interval are the same up to their lines. -/
def SameParts (parts parts' : SExpr × SExpr × SExpr) : Prop :=
  SameTree parts.1 parts'.1 ∧ SameTree parts.2.1 parts'.2.1 ∧ SameTree parts.2.2 parts'.2.2

/-- The parts of an interval are the same whatever the lines. -/
theorem sameParts_intervalParts? (h : SameTree entry entry') :
    Option.Rel SameParts (intervalParts? entry) (intervalParts? entry') := by
  cases h with
  | int | symbol => exact .none
  | list _ _ h =>
    rcases h with _ | ⟨hvalue, _ | ⟨hsecond, _ | ⟨hthird, _ | ⟨hfourth, _ | _⟩⟩⟩⟩
    · exact .none
    · exact .none
    · exact .none
    · exact .some ⟨hvalue, hsecond, hthird⟩
    · exact .some ⟨hvalue, hthird, hfourth⟩
    · exact .none

/-- An interval is added the same way whatever the lines of its entry. -/
theorem agree_addInterval (draft : Draft) (h : SameTree entry entry') :
    Agree Eq (draft.addInterval entry) (draft.addInterval entry') := by
  unfold addInterval
  have hrel := sameParts_intervalParts? h
  generalize intervalParts? entry = parts, intervalParts? entry' = parts' at hrel ⊢
  cases hrel with
  | none => exact .malformed _ _
  | some hparts =>
    obtain ⟨hvalue, hstart, hstop⟩ := hparts
    refine (draft.agree_lookup hvalue).bind_eq fun ⟨v, later⟩ => ?_
    refine (hstart.toInt _).bind_eq fun start => ?_
    refine (hstop.toInt _).bind_eq fun stop => ?_
    dsimp only
    split
    · exact .malformed _ _
    · exact .refl _

end Draft

/-! ## Clauses -/

namespace Clauses

open SExpr

/-- The kinds of clauses. -/
inductive Kind where
  | arguments
  | instructions
  | fixed
  | intervals
  | copies
deriving DecidableEq

/-- The kind of the clauses with the given head. -/
def Kind.ofHead? : String → Option Kind
  | "arguments" => some .arguments
  | "instructions" => some .instructions
  | "fixed" => some .fixed
  | "intervals" => some .intervals
  | "copies" => some .copies
  | _ => none

/-- The clause of a kind. -/
def get (clauses : Clauses) : Kind → Option SExpr
  | .arguments => clauses.arguments
  | .instructions => clauses.instructions
  | .fixed => clauses.fixed
  | .intervals => clauses.intervals
  | .copies => clauses.copies

/-- The clauses with a given one of a kind. -/
def put (clauses : Clauses) (clause : SExpr) : Kind → Clauses
  | .arguments => { clauses with arguments := some clause }
  | .instructions => { clauses with instructions := some clause }
  | .fixed => { clauses with fixed := some clause }
  | .intervals => { clauses with intervals := some clause }
  | .copies => { clauses with copies := some clause }

variable (clauses : Clauses)

/-- A clause that is put in its place changes this place only. -/
theorem get_put (clause : SExpr) (kind kind' : Kind) :
    (clauses.put clause kind).get kind' =
      if kind = kind' then some clause else clauses.get kind' := by
  cases kind <;> cases kind' <;> rfl

/-- Clauses of different kinds can be put in their places in either order. -/
theorem put_comm (x y : SExpr) {kind kind' : Kind} (h : kind ≠ kind') :
    (clauses.put x kind).put y kind' = (clauses.put y kind').put x kind := by
  cases kind <;> cases kind' <;> simp_all [put]

/-- A clause is added if its kind is known and not there yet. -/
theorem add_eq (clause : SExpr) :
    clauses.add clause = match Kind.ofHead? clause.head with
      | none => clause.refuse (.unknownClause clause.text)
      | some kind =>
        if (clauses.get kind).isSome then clause.refuse (.duplicateClause clause.head)
        else .ok (clauses.put clause kind) := by
  unfold add Kind.ofHead?
  generalize clause.head = head
  split
  case h_6 => simp_all
  all_goals rfl

/-- The clauses are the same up to their lines. -/
def Same (clauses clauses' : Clauses) : Prop :=
  ∀ kind, Option.Rel SameTree (clauses.get kind) (clauses'.get kind)

variable {clauses} {clauses' : Clauses} {exprs exprs' : List SExpr}

/-- Equal clauses that are put in the same place leave equal places. -/
theorem Same.put (h : Same clauses clauses') {clause clause' : SExpr}
    (hsame : SameTree clause clause') (kind : Kind) :
    Same (clauses.put clause kind) (clauses'.put clause' kind) := by
  intro kind'
  rw [get_put, get_put]
  split
  · exact .some hsame
  · exact h kind'

/-- The same places are taken. -/
theorem Same.isSome (h : Same clauses clauses') (kind : Kind) :
    (clauses.get kind).isSome = (clauses'.get kind).isSome := by
  have hrel := h kind
  generalize clauses.get kind = clause, clauses'.get kind = clause' at hrel ⊢
  cases hrel <;> rfl

/-- The entries of clauses with the same trees have the same trees. -/
theorem Same.entries (h : Same clauses clauses') (kind : Kind) :
    List.Forall₂ SameTree (entries (clauses.get kind)) (Clauses.entries (clauses'.get kind)) := by
  have hrel := h kind
  generalize clauses.get kind = clause, clauses'.get kind = clause' at hrel ⊢
  cases hrel with
  | none => exact .nil
  | some hsame =>
    cases hsame with
    | int | symbol => exact .nil
    | list _ _ hitems =>
      cases hitems with
      | nil => exact .nil
      | cons _ hrest => exact hrest

/-- A clause is added the same way whatever the lines. -/
theorem agree_add (h : Same clauses clauses') {clause clause' : SExpr}
    (hsame : SameTree clause clause') : Agree Same (clauses.add clause) (clauses'.add clause') := by
  rw [add_eq, add_eq, hsame.head]
  cases Kind.ofHead? clause'.head with
  | none => exact .malformed _ _
  | some kind =>
    dsimp only
    rw [h.isSome]
    split
    · exact .malformed _ _
    · exact .ok (h.put hsame kind)

/-- Clauses are collected the same way whatever the lines. -/
theorem agree_ofList (h : List.Forall₂ SameTree exprs exprs') :
    Agree Same (ofList exprs) (ofList exprs') :=
  Agree.foldlM h (fun _ _ _ _ h hsame => agree_add h hsame) fun kind => by
    cases kind <;> exact .none

/-- Two clauses can be added in either order. -/
theorem agree_add_add (clauses : Clauses) (x y : SExpr) :
    Agree Eq (clauses.add x >>= fun later => later.add y)
      (clauses.add y >>= fun later => later.add x) := by
  simp only [add_eq]
  cases Kind.ofHead? x.head with
  | none =>
    cases Kind.ofHead? y.head with
    | none => exact .malformed _ _
    | some kind => dsimp only; split <;> exact .malformed _ _
  | some kind =>
    cases Kind.ofHead? y.head with
    | none => dsimp only; split <;> exact .malformed _ _
    | some kind' =>
      by_cases hkind : kind = kind'
      · subst hkind
        by_cases h : (clauses.get kind).isSome = true
        · simp only [if_pos h]
          exact .malformed _ _
        · simp only [if_neg h, bind, Except.bind, get_put, if_true, Option.isSome_some]
          exact .malformed _ _
      · by_cases hx : (clauses.get kind).isSome = true <;>
          by_cases hy : (clauses.get kind').isSome = true <;>
          simp only [hx, hy, if_true, if_false, Bool.false_eq_true, bind, Except.bind, get_put,
            hkind, Ne.symm hkind]
        · exact .malformed _ _
        · exact .malformed _ _
        · exact .malformed _ _
        · exact .ok (clauses.put_comm x y hkind)

/-- Clauses are collected the same way in every order. -/
theorem agree_foldlM_of_perm (h : exprs.Perm exprs') (clauses : Clauses) :
    Agree Eq (exprs.foldlM add clauses) (exprs'.foldlM add clauses) := by
  induction h generalizing clauses with
  | nil => exact .refl _
  | cons x _ ih => exact (Agree.refl (clauses.add x)).bind_eq fun _ => ih _
  | swap x y rest =>
    simp only [List.foldlM_cons, ← bind_assoc]
    exact (agree_add_add clauses y x).bind_eq fun _ => .refl _
  | trans _ _ ih ih' => exact (ih clauses).trans (ih' clauses)

end Clauses

namespace Draft

open Clauses

variable {clauses clauses' : Clauses}

/-- The names of all clauses are defined the same way whatever the lines. -/
theorem agree_defineAll (draft : Draft) (h : Same clauses clauses') :
    Agree Eq (draft.defineAll clauses) (draft.defineAll clauses') := by
  refine (Agree.foldlM_eq (h.entries .arguments)
    (fun draft _ _ => draft.agree_defineArgument) _).bind_eq fun draft => ?_
  refine (Agree.foldlM_eq (h.entries .instructions)
    (fun draft _ _ => draft.agree_defineOutput) _).bind_eq fun draft => ?_
  refine (Agree.foldlM_eq (h.entries .copies)
    (fun draft _ _ => draft.agree_defineTarget) _).bind_eq fun draft => ?_
  exact Agree.foldlM_eq (h.entries .intervals) (fun draft _ _ => draft.agree_defineInterval) _

/-- All clauses are added the same way whatever the lines. -/
theorem agree_addAll (draft : Draft) (h : Same clauses clauses') :
    Agree Eq (draft.addAll clauses) (draft.addAll clauses') := by
  refine (draft.agree_defineAll h).bind_eq fun draft => ?_
  refine (Agree.foldlM_eq (h.entries .arguments)
    (fun draft _ _ => draft.agree_addArgument) _).bind_eq fun draft => ?_
  refine (draft.agree_addInstructions 0 (h.entries .instructions)).bind_eq fun draft => ?_
  refine (Agree.foldlM_eq (h.entries .copies)
    (fun draft _ _ => draft.agree_addCopy) _).bind_eq fun draft => ?_
  refine (Agree.foldlM_eq (h.entries .fixed)
    (fun draft _ _ => draft.agree_addFixed) _).bind_eq fun draft => ?_
  exact Agree.foldlM_eq (h.entries .intervals) (fun draft _ _ => draft.agree_addInterval) _

end Draft

namespace CodeUnit

open SExpr

/-- A unit is finished the same way if its clauses have been added the same way. -/
theorem agree_ofClauses (name : String) (expr expr' : SExpr) {clauses clauses' : Clauses}
    (h : Agree Eq (Draft.addAll { unit := { name } } clauses)
      (Draft.addAll { unit := { name } } clauses')) :
    Agree Eq (ofClauses name expr clauses) (ofClauses name expr' clauses') := by
  refine h.bind_eq fun draft => ?_
  cases Draft.undefined? draft.unit with
  | some v => exact .malformed _ _
  | none => exact .refl _

/-- A list with another head is no unit. -/
theorem ofSExpr_of_head_ne {head : String} (h : head ≠ "unit") (headLine line : Nat)
    (rest : List SExpr) :
    ofSExpr (.list (.symbol head headLine :: rest) line) =
      refuse (.list (.symbol head headLine :: rest) line) .notUnit := by
  unfold ofSExpr
  split <;> simp_all

/-- Forms with the same trees have the same outcome. -/
theorem agree_ofSExpr {expr expr' : SExpr} (h : SameTree expr expr') :
    Agree Eq (ofSExpr expr) (ofSExpr expr') := by
  cases h with
  | int | symbol => exact .malformed _ _
  | list line line' h =>
    cases h with
    | nil => exact .malformed _ _
    | cons hhead hrest =>
      cases hhead with
      | int | list => exact .malformed _ _
      | symbol head =>
        by_cases hunit : head = "unit"
        · subst hunit
          cases hrest with
          | nil => exact .malformed _ _
          | cons hname hclauses =>
            cases hname with
            | int | list => exact .malformed _ _
            | symbol name =>
              exact (Clauses.agree_ofList hclauses).bind fun _ _ hsame =>
                agree_ofClauses name _ _ (Draft.agree_addAll _ hsame)
        · rw [ofSExpr_of_head_ne hunit, ofSExpr_of_head_ne hunit]
          exact .malformed _ _

/-- The clauses of a form can be put into another order. -/
theorem agree_ofSExpr_of_perm {clauses moved : List SExpr} (h : clauses.Perm moved) (name : String)
    (unitLine nameLine line : Nat) :
    Agree Eq (ofSExpr (.list (.symbol "unit" unitLine :: .symbol name nameLine :: clauses) line))
      (ofSExpr (.list (.symbol "unit" unitLine :: .symbol name nameLine :: moved) line)) :=
  (Clauses.agree_foldlM_of_perm h {}).bind_eq fun _ => agree_ofClauses name _ _ (.refl _)

/-- The order of clauses does not matter, nor do the lines they are on: if the clauses of a form are
permuted and the form is laid out differently, it is read as a unit exactly if the first one is, and
as the same unit. Reading breaks off at the same faults as well. -/
theorem ofSExpr_reordered {clauses moved : List SExpr} (hperm : clauses.Perm moved) {name : String}
    {unitLine nameLine line : Nat} {expr : SExpr}
    (hlines : SameTrees [.list (.symbol "unit" unitLine :: .symbol name nameLine :: moved) line]
      [expr]) :
    (∀ u, ofSExpr (.list (.symbol "unit" unitLine :: .symbol name nameLine :: clauses) line) =
      .ok u ↔ ofSExpr expr = .ok u) ∧
    ∀ fault, ofSExpr (.list (.symbol "unit" unitLine :: .symbol name nameLine :: clauses) line) =
      .error (.fault fault) ↔ ofSExpr expr = .error (.fault fault) := by
  have hsame : SameTree
      (.list (.symbol "unit" unitLine :: .symbol name nameLine :: moved) line) expr := by
    cases sameTree_of_sameTrees hlines with
    | cons h => exact h
  have h := (agree_ofSExpr_of_perm hperm name unitLine nameLine line).trans (agree_ofSExpr hsame)
  exact ⟨fun _ => h.eq_ok_iff, fun _ => h.eq_fault_iff⟩

/-- The form `blendForm` with its clauses in reverse order, on a single line. -/
def blendReversed : SExpr :=
  .list [.symbol "unit" 1, .symbol "blend" 1,
    .list [.symbol "copies" 1, .list [.int 4 1, .list [.symbol "s" 1, .symbol "single" 1] 1,
      .list [.symbol "t" 1, .symbol "single" 1] 1] 1] 1,
    .list [.symbol "intervals" 1, .list [.symbol "s" 1, .int 1 1, .int 4 1] 1,
      .list [.symbol "w" 1, .symbol "single" 1, .int 1 1, .int 9 1] 1,
      .list [.symbol "z" 1, .int 3 1, .int 6 1] 1] 1,
    .list [.symbol "fixed" 1, .list [.list [.symbol "z" 1, .symbol "object" 1] 1, .int 7 1] 1] 1,
    .list [.symbol "instructions" 1,
      .list [.int 2 1, .symbol "move" 1, .list [.symbol "b" 1, .symbol "single" 1] 1,
        .symbol "w" 1] 1,
      .list [.int 5 1, .symbol "invoke" 1, .symbol "f" 1, .list [] 1, .symbol "b" 1] 1] 1,
    .list [.symbol "arguments" 1, .list [.symbol "a" 1, .symbol "wide" 1] 1] 1] 1

/-- The clauses of `blend` in two orders. -/
theorem ofSExpr_reordered_blend :
    ofSExpr blendForm = .ok blend ∧ ofSExpr blendReversed = .ok blend := by
  have hread : ofSExpr blendForm = .ok blend := by decide +kernel
  have hlines : SameTrees [.list (.symbol "unit" 1 :: .symbol "blend" 1 ::
      (blendForm.items.drop 2).reverse) 1] [blendReversed] := rfl
  exact ⟨hread, ((ofSExpr_reordered (List.reverse_perm _).symm hlines).1 blend).1 hread⟩

end CodeUnit
end RegisterAllocation
