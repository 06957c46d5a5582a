import RegisterAllocation.SExpr.Reader
import RegisterAllocation.Proofs.SExpr.Token
import RegisterAllocation.Proofs.Text.Decimal

/-!
# Reading is exact

Writing out the marks of an expression takes its structure apart again: an opening mark, the
elements and a closing mark for a list, one mark for an atom. `SExpr.readAll_exact`: a text can be
read if and only if it is legible and its parentheses match, and the marks of what is read are the
tokens of the text, one for one and with their lines.
-/

namespace RegisterAllocation

/-! ## Stacks -/

namespace Stack

variable {α : Type} {stack rest : Stack α} {x : α}

@[simp] theorem size_empty : (empty : Stack α).size = 0 := rfl

theorem isEmpty_iff : stack.isEmpty = true ↔ stack = .empty := by
  cases stack
  simp [isEmpty, empty]

theorem isEmpty_iff_size : stack.isEmpty = true ↔ stack.size = 0 := by
  simp [isEmpty, size]

/-- What is taken off is what was pushed last. -/
theorem pop_eq_ok_iff : stack.pop = .ok (x, rest) ↔ stack = rest.push x := by
  obtain ⟨items⟩ := stack
  cases items with
  | nil => simp [pop, push]
  | cons first items =>
    cases rest
    simp [pop, push]

/-- Only from the empty stack nothing can be taken off. -/
theorem eq_empty_of_pop {fault : Fault} (h : stack.pop = .error fault) : stack = .empty := by
  obtain ⟨items⟩ := stack
  cases items with
  | nil => rfl
  | cons first items => cases h

end Stack

/-! ## Marks -/

/-- A token as it shows in an expression. -/
inductive Mark where
  | opening (line : Nat)
  | closing
  | int (value : Int64) (line : Nat)
  | symbol (name : String) (line : Nat)
deriving DecidableEq, Repr

/-- What a token becomes: an atom is an integer if it is the decimal text of a word. -/
def Lexeme.mark : Lexeme → Mark
  | ⟨.opening, line⟩ => .opening line
  | ⟨.closing, _⟩ => .closing
  | ⟨.atom chars, line⟩ =>
    match Decimal.toWord? chars with
    | some value => .int value line
    | none => .symbol (String.ofList chars) line

namespace SExpr

mutual

/-- The marks of an expression, in the order of the text. -/
def marks : SExpr → List Mark
  | int value line => [.int value line]
  | symbol name line => [.symbol name line]
  | list items line => .opening line :: marksAll items ++ [.closing]

def marksAll : List SExpr → List Mark
  | [] => []
  | item :: items => item.marks ++ marksAll items

end

@[simp]
theorem marksAll_append (left right : List SExpr) :
    marksAll (left ++ right) = marksAll left ++ marksAll right := by
  induction left with
  | nil => rfl
  | cons item left ih => simp [marksAll, ih]

/-- An atom has the mark of its token. -/
@[simp]
theorem marks_ofAtom (chars : List Char) (line : Nat) :
    (ofAtom chars line).marks = [Lexeme.mark ⟨.atom chars, line⟩] := by
  simp only [ofAtom, Lexeme.mark]
  cases Decimal.toWord? chars <;> simp [marks]

/-! ## Matching parentheses -/

/-- The number of lists that tokens open. -/
def openings (lexemes : List Lexeme) : Nat := lexemes.countP (·.token = .opening)

/-- The number of lists that tokens close. -/
def closings (lexemes : List Lexeme) : Nat := lexemes.countP (·.token = .closing)

/-- With `depth` lists open, the tokens close no more lists than are open at any time, and in the
end all of them. -/
def Matches (depth : Nat) (lexemes : List Lexeme) : Prop :=
  (∀ init, init <+: lexemes → closings init ≤ depth + openings init) ∧
    depth + openings lexemes = closings lexemes

theorem matches_nil {depth : Nat} : Matches depth [] ↔ depth = 0 := by
  simp [Matches, openings, closings]

theorem openings_cons (lexeme : Lexeme) (lexemes : List Lexeme) :
    openings (lexeme :: lexemes) = openings [lexeme] + openings lexemes := by
  rw [openings, openings, openings, ← List.countP_append, List.singleton_append]

theorem closings_cons (lexeme : Lexeme) (lexemes : List Lexeme) :
    closings (lexeme :: lexemes) = closings [lexeme] + closings lexemes := by
  rw [closings, closings, closings, ← List.countP_append, List.singleton_append]

/-- One token changes the number of open lists. -/
theorem matches_cons {depth next : Nat} {lexeme : Lexeme} {lexemes : List Lexeme}
    (hnext : next + closings [lexeme] = depth + openings [lexeme]) :
    Matches depth (lexeme :: lexemes) ↔ Matches next lexemes := by
  constructor
  · rintro ⟨hinit, hall⟩
    rw [openings_cons, closings_cons] at hall
    refine ⟨fun init h => ?_, by omega⟩
    have hcons := hinit (lexeme :: init) (List.prefix_cons_inj lexeme |>.mpr h)
    rw [openings_cons, closings_cons] at hcons
    omega
  · rintro ⟨hinit, hall⟩
    refine ⟨fun init h => ?_, by rw [openings_cons, closings_cons]; omega⟩
    cases init with
    | nil => simp [closings]
    | cons first init =>
      obtain ⟨rfl, hrest⟩ := List.cons_prefix_cons.mp h
      have hbound := hinit init hrest
      rw [openings_cons, closings_cons]
      omega

/-- A list that is not open cannot be closed. -/
theorem not_matches_closing {line : Nat} {lexemes : List Lexeme} :
    ¬Matches 0 (⟨.closing, line⟩ :: lexemes) := fun h => by
  have hfirst := h.1 [⟨.closing, line⟩] (by simp)
  simp [closings, openings] at hfirst

/-! ## Assembly -/

/-- The marks that have been read while lists are open: what stands before each list, its opening
mark, and in the end the elements of the innermost one. -/
def pendingMarks (inner : OpenList) : List OpenList → List Mark
  | [] => marksAll inner.items.reverse
  | outer :: enclosing =>
    pendingMarks outer enclosing ++ .opening inner.line :: marksAll inner.items.reverse

/-- An element that is added to the innermost list comes last. -/
@[simp]
theorem pendingMarks_add (inner : OpenList) (item : SExpr) (enclosing : List OpenList) :
    pendingMarks (inner.add item) enclosing = pendingMarks inner enclosing ++ item.marks := by
  cases enclosing <;> simp [pendingMarks, OpenList.add, marksAll]

/-- A list that is closed becomes an element of the one around it. -/
theorem pendingMarks_close (inner outer : OpenList) (enclosing : List OpenList) :
    pendingMarks (outer.add inner.close) enclosing =
      pendingMarks inner (outer :: enclosing) ++ [.closing] := by
  simp [pendingMarks, OpenList.close, marks]

/-- Assembly keeps every mark. -/
theorem marksAll_of_assemble {ending : Ending} {lexemes : List Lexeme} {inner : OpenList}
    {enclosing : Stack OpenList} {exprs : List SExpr}
    (h : assemble ending lexemes inner enclosing = .ok exprs) :
    marksAll exprs = pendingMarks inner enclosing.items ++ lexemes.map Lexeme.mark := by
  fun_induction assemble ending lexemes inner enclosing with
  | case1 inner enclosing line c => cases h
  | case2 inner enclosing line hfinished hempty =>
    cases h
    rw [Stack.isEmpty_iff] at hempty
    simp [hempty, Stack.empty, pendingMarks]
  | case3 inner enclosing line hfinished hopen => cases h
  | case4 line lexemes inner enclosing ih =>
    simp [ih h, Stack.push, pendingMarks, marksAll, Lexeme.mark]
  | case5 line lexemes inner enclosing fault hpop => cases h
  | case6 line lexemes inner enclosing outer rest hpop ih =>
    obtain rfl := Stack.pop_eq_ok_iff.mp hpop
    simp [ih h, -pendingMarks_add, pendingMarks_close, Stack.push, Lexeme.mark]
  | case7 chars line lexemes inner enclosing ih => simp [ih h]

/-- Assembly succeeds at the end of a text whose parentheses match. -/
theorem assemble_iff {ending : Ending} {lexemes : List Lexeme} {inner : OpenList}
    {enclosing : Stack OpenList} :
    (∃ exprs, assemble ending lexemes inner enclosing = .ok exprs) ↔
      ending.isFinished = true ∧ Matches enclosing.size lexemes := by
  fun_induction assemble ending lexemes inner enclosing with
  | case1 inner enclosing line c hstuck => simp [hstuck, Ending.isFinished]
  | case2 inner enclosing line hfinished hempty =>
    rw [Stack.isEmpty_iff] at hempty
    simp [hfinished, hempty, Stack.size_empty, Ending.isFinished, matches_nil]
  | case3 inner enclosing line hfinished hopen =>
    rw [Stack.isEmpty_iff_size] at hopen
    simp [matches_nil, hopen]
  | case4 line lexemes inner enclosing ih =>
    rw [ih, matches_cons]
    rfl
  | case5 line lexemes inner enclosing fault hpop =>
    obtain rfl := Stack.eq_empty_of_pop hpop
    simp [Stack.size_empty, not_matches_closing]
  | case6 line lexemes inner enclosing outer rest hpop ih =>
    obtain rfl := Stack.pop_eq_ok_iff.mp hpop
    rw [ih, matches_cons]
    rfl
  | case7 chars line lexemes inner enclosing ih =>
    rw [ih, matches_cons]
    rfl

theorem readAll_eq_assemble (text : List Char) :
    readAll text =
      assemble (Lexeme.scan 1 text).2 (Lexeme.scan 1 text).1 { line := 0 } .empty := rfl

/-- A text can be read if it is legible and its parentheses match. -/
theorem readAll_iff_matches (text : List Char) :
    (∃ exprs, readAll text = .ok exprs) ↔
      Lexeme.Legible text ∧ Matches 0 (Lexeme.tokens text) := by
  rw [readAll_eq_assemble, assemble_iff, Lexeme.scan_finished_iff]
  exact and_congr_right fun hlegible => by rw [Lexeme.scan_tokens hlegible, Stack.size_empty]

/-- The marks of what is read are the tokens of the text. -/
theorem marksAll_of_readAll {text : List Char} {exprs : List SExpr}
    (h : readAll text = .ok exprs) : marksAll exprs = (Lexeme.tokens text).map Lexeme.mark := by
  have hlegible := ((readAll_iff_matches text).mp ⟨exprs, h⟩).1
  rw [readAll_eq_assemble] at h
  rw [marksAll_of_assemble h, Lexeme.scan_tokens hlegible]
  rfl

/-- A text can be read if and only if outside comments there are only white space, parentheses and
characters of atoms, no part of the tokens from the first one on closes more lists than it opens,
and all lists are closed in the end. Then the expressions that were read have the tokens of the
text as their marks, and the atoms among them that are decimal texts of words are integers. -/
theorem readAll_exact (text : List Char) :
    ((∃ exprs, readAll text = .ok exprs) ↔
      Lexeme.Legible text ∧
      (∀ init, init <+: Lexeme.tokens text → closings init ≤ openings init) ∧
      openings (Lexeme.tokens text) = closings (Lexeme.tokens text)) ∧
    (∀ exprs, readAll text = .ok exprs →
      marksAll exprs = (Lexeme.tokens text).map Lexeme.mark) ∧
    (∀ chars value, Decimal.toWord? chars = some value ↔ Decimal.Denotes chars value.toInt) := by
  have hiff := readAll_iff_matches text
  simp only [Matches, Nat.zero_add] at hiff
  exact ⟨hiff, fun exprs => marksAll_of_readAll, fun chars value => Decimal.toWord?_eq_some_iff⟩

/-- A comment right after a symbol, a list on the next line and a numeral that is too large. -/
theorem readAll_exact_nested :
    readAll "(a;(b\n (-12) 9223372036854775808)".toList =
      .ok [.list [.symbol "a" 1, .list [.int (-12) 2] 2, .symbol "9223372036854775808" 2] 1] ∧
    marksAll [.list [.symbol "a" 1, .list [.int (-12) 2] 2, .symbol "9223372036854775808" 2] 1] =
      (Lexeme.tokens "(a;(b\n (-12) 9223372036854775808)".toList).map Lexeme.mark :=
  have hread : readAll "(a;(b\n (-12) 9223372036854775808)".toList =
      .ok [.list [.symbol "a" 1, .list [.int (-12) 2] 2, .symbol "9223372036854775808" 2] 1] := by
    with_unfolding_all rfl
  ⟨hread, (readAll_exact _).2.1 _ hread⟩

end SExpr
end RegisterAllocation
