import RegisterAllocation.Proofs.SExpr.Reader

/-!
# Reading undoes writing

The texts of expressions, with white space and comments between them, are read as the same
expressions; only the lines differ. `SExpr.readFrom` is reading in the middle of a text: what was
read so far is given, and each piece of the text adds to it. `SExpr.readAll_undoes_text` says it
for all expressions that can be written, which are those whose symbols are non-empty, consist of
characters of atoms and are no numerals of words. All expressions that come from a text are such.
-/

namespace RegisterAllocation

/-- Whether a mark that is written as an atom is read as the same mark again. -/
def Mark.isWritable : Mark → Bool
  | .symbol name _ =>
    !name.toList.isEmpty && name.toList.all Token.isAtomChar
      && (Decimal.toWord? name.toList).isNone
  | _ => true

namespace SExpr

/-! ## Lines -/

mutual

/-- The expression with all its nodes on one line. -/
def onLine (line : Nat) : SExpr → SExpr
  | int value _ => int value line
  | symbol name _ => symbol name line
  | list items _ => list (onLineAll line items) line

/-- Expressions with all their nodes on one line. -/
def onLineAll (line : Nat) : List SExpr → List SExpr
  | [] => []
  | item :: items => item.onLine line :: onLineAll line items

end

/-- The expressions are the same up to their lines. -/
def SameTrees (left right : List SExpr) : Prop := onLineAll 0 left = onLineAll 0 right

mutual

/-- Only the last change of lines counts. -/
theorem onLine_onLine (inner outer : Nat) :
    ∀ expr : SExpr, (expr.onLine inner).onLine outer = expr.onLine outer
  | int .. | symbol .. => by simp [onLine]
  | list items _ => by simp [onLine, onLineAll_onLineAll inner outer items]

theorem onLineAll_onLineAll (inner outer : Nat) :
    ∀ exprs : List SExpr, onLineAll outer (onLineAll inner exprs) = onLineAll outer exprs
  | [] => rfl
  | expr :: exprs => by
    simp [onLineAll, onLine_onLine inner outer expr, onLineAll_onLineAll inner outer exprs]

end

/-! ## Texts of expressions -/

/-- Whether all symbols of the expression are read as themselves. -/
def isWritable (expr : SExpr) : Bool := expr.marks.all Mark.isWritable

/-- White space and comments that end with their lines, at least one of them. -/
inductive Gap : List Char → Prop where
  | blank {c : Char} (h : isBlank c = true) : Gap [c]
  | comment {chars : List Char} (h : '\n' ∉ chars) : Gap (';' :: chars ++ ['\n'])
  | append {left right : List Char} (hleft : Gap left) (hright : Gap right) : Gap (left ++ right)

/-- The texts of the expressions one after the other, with a gap after each of them but the last
one, after which there may be one. -/
inductive Spells : List SExpr → List Char → Prop where
  | nil : Spells [] []
  | single (expr : SExpr) : Spells [expr] expr.text.toList
  | cons (expr : SExpr) {exprs : List SExpr} {gap rest : List Char} (hgap : Gap gap)
    (hrest : Spells exprs rest) : Spells (expr :: exprs) (expr.text.toList ++ gap ++ rest)

/-- A list can be written if its elements can. -/
@[simp]
theorem isWritable_list (items : List SExpr) (line : Nat) :
    (list items line).isWritable = (marksAll items).all Mark.isWritable := by
  simp [isWritable, marks, Mark.isWritable]

/-- Expressions can be written if their marks can. -/
theorem all_isWritable (exprs : List SExpr) :
    (marksAll exprs).all Mark.isWritable = exprs.all isWritable := by
  induction exprs with
  | nil => rfl
  | cons expr exprs ih => simp [marksAll, ih, isWritable]

/-! ## Reading in the middle of a text -/

/-- Reads on from a line, inside the lists that are open. -/
def readFrom (line : Nat) (text : List Char) (inner : OpenList) (enclosing : Stack OpenList) :
    Except ReadError (List SExpr) :=
  assemble (Lexeme.scan line text).2 (Lexeme.scan line text).1 inner enclosing

/-- An atom comes to its end before these characters. -/
def EndsAtom (rest : List Char) : Prop := ∀ c ∈ rest.head?, Token.isAtomChar c = false

section

variable {line : Nat} {rest : List Char} {inner : OpenList} {enclosing : Stack OpenList}

/-- An opening parenthesis opens a list. -/
theorem readFrom_opening : readFrom line ('(' :: rest) inner enclosing =
    readFrom line rest { line } (enclosing.push inner) := by
  have hblank : isBlank '(' = false := by decide
  simp [readFrom, Lexeme.scan, hblank, assemble]

/-- A closing parenthesis closes the innermost list. -/
theorem readFrom_closing {outer : OpenList} :
    readFrom line (')' :: rest) inner (enclosing.push outer) =
      readFrom line rest (outer.add inner.close) enclosing := by
  have hblank : isBlank ')' = false := by decide
  simp [readFrom, Lexeme.scan, hblank, assemble, Stack.pop_eq_ok_iff.mpr rfl]

/-- White space only counts lines. -/
theorem readFrom_blank {c : Char} (h : isBlank c = true) :
    readFrom line (c :: rest) inner enclosing =
      readFrom (line + if c = '\n' then 1 else 0) rest inner enclosing := by
  by_cases hnewline : c = '\n' <;> simp [readFrom, Lexeme.scan, hnewline, h]

/-- A comment ends with its line. -/
theorem readFrom_comment {chars : List Char} (h : '\n' ∉ chars) :
    readFrom line (';' :: chars ++ '\n' :: rest) inner enclosing =
      readFrom (line + 1) rest inner enclosing := by
  have hblank : isBlank ';' = false := by decide
  have hdrop : (chars ++ '\n' :: rest).dropWhile (· ≠ '\n') = '\n' :: rest := by
    rw [List.dropWhile_append_of_pos fun c hc => by
      simpa using fun heq : c = '\n' => h (heq ▸ hc)]
    simp
  simp only [readFrom, List.cons_append]
  rw [Lexeme.scan]
  simp only [hdrop]
  simp [hblank, Lexeme.scan]

/-- A gap only counts lines. -/
theorem readFrom_gap {gap : List Char} (h : Gap gap) :
    ∃ next, ∀ rest, readFrom line (gap ++ rest) inner enclosing =
      readFrom next rest inner enclosing := by
  induction h generalizing line with
  | blank h => exact ⟨_, fun rest => readFrom_blank h⟩
  | comment h => exact ⟨line + 1, fun rest => by simpa using readFrom_comment h⟩
  | append _ _ ihleft ihright =>
    obtain ⟨middle, hleft⟩ := @ihleft line
    obtain ⟨next, hright⟩ := @ihright middle
    exact ⟨next, fun rest => by rw [List.append_assoc, hleft, hright]⟩

theorem Gap.endsAtom {gap : List Char} (h : Gap gap) : EndsAtom (gap ++ rest) := by
  induction h generalizing rest with
  | blank h => simpa [EndsAtom] using Token.isAtomChar_of_isBlank h
  | comment => simpa [EndsAtom] using by decide
  | append _ _ ih _ =>
    rw [List.append_assoc]
    exact ih

/-- A run of characters of atoms is one atom, if it is not followed by another such character. -/
theorem readFrom_atom {chars : List Char} (hne : chars ≠ [])
    (hchars : ∀ c ∈ chars, Token.isAtomChar c = true) (hrest : EndsAtom rest) :
    readFrom line (chars ++ rest) inner enclosing =
      readFrom line rest (inner.add (ofAtom chars line)) enclosing := by
  cases chars with
  | nil => exact absurd rfl hne
  | cons c chars =>
    obtain ⟨hc, hchars⟩ := List.forall_mem_cons.mp hchars
    obtain ⟨hline, hcomment, hopening, hclosing⟩ := Lexeme.isAtomChar_ne hc
    have hblank : isBlank c = false := by
      by_contra h
      simp [Token.isAtomChar_of_isBlank (by simpa using h)] at hc
    have hstop : rest.takeWhile Token.isAtomChar = [] ∧ rest.dropWhile Token.isAtomChar = rest := by
      cases rest with
      | nil => simp
      | cons d rest => simp [hrest d rfl]
    simp only [readFrom, List.cons_append]
    rw [Lexeme.scan]
    simp [hline, hblank, hcomment, hopening, hclosing, hc, List.takeWhile_append_of_pos hchars,
      List.dropWhile_append_of_pos hchars, hstop.1, hstop.2, assemble]

end

/-! ## Reading texts of expressions -/

/-- Digits are characters of atoms. -/
theorem isAtomChar_of_isDigits {chars : List Char} (h : Decimal.IsDigits chars) :
    ∀ c ∈ chars, Token.isAtomChar c = true := by
  intro c hc
  have hdigit : c.isDigit = true := by
    rw [Char.isDigit, Bool.and_eq_true, decide_eq_true_eq, decide_eq_true_eq]
    exact h.2 c hc
  have hbasic : c.toNat < 0x80 := Nat.lt_of_le_of_lt (h.2 c hc).2 (by decide)
  simp [Token.isAtomChar, isDigit, hbasic, hdigit]

/-- A numeral is an atom. -/
theorem isAtomChar_of_denotes {chars : List Char} {n : Int} (h : Decimal.Denotes chars n) :
    chars ≠ [] ∧ ∀ c ∈ chars, Token.isAtomChar c = true := by
  cases h with
  | unsigned hdigits => exact ⟨hdigits.1, isAtomChar_of_isDigits hdigits⟩
  | plus hdigits =>
    exact ⟨by simp, List.forall_mem_cons.mpr ⟨by decide, isAtomChar_of_isDigits hdigits⟩⟩
  | minus hdigits =>
    exact ⟨by simp, List.forall_mem_cons.mpr ⟨by decide, isAtomChar_of_isDigits hdigits⟩⟩

/-- Whatever follows an element ends its last atom. -/
theorem endsAtom_textRest (exprs : List SExpr) (rest : List Char) :
    EndsAtom ((textRest exprs).toList ++ ')' :: rest) := by
  cases exprs with
  | nil => simpa [EndsAtom, textRest] using by decide
  | cons => simpa [EndsAtom, textRest] using by decide

/-- A list that gets all of its elements one by one. -/
theorem close_foldl_add (exprs : List SExpr) (inner : OpenList) :
    (exprs.foldl OpenList.add inner).close = list (inner.items.reverse ++ exprs) inner.line := by
  induction exprs generalizing inner with
  | nil => simp [OpenList.close]
  | cons expr exprs ih => simp [OpenList.add, ih]

mutual

/-- The text of an expression is read as that expression. -/
theorem readFrom_text {line : Nat} {rest : List Char} {inner : OpenList}
    {enclosing : Stack OpenList} (hrest : EndsAtom rest) :
    ∀ expr : SExpr, expr.isWritable = true →
      readFrom line (expr.text.toList ++ rest) inner enclosing =
        readFrom line rest (inner.add (expr.onLine line)) enclosing
  | int value _, _ => by
    obtain ⟨hne, hchars⟩ := isAtomChar_of_denotes (Decimal.denotes_ofInt value.toInt)
    rw [text, Decimal.ofWord, readFrom_atom hne hchars hrest, ofAtom, ← Decimal.ofWord,
      Decimal.toWord?_ofWord]
    simp [onLine]
  | symbol name _, h => by
    simp only [isWritable, marks, List.all_cons, List.all_nil, Mark.isWritable, Bool.and_true,
      Bool.and_eq_true, Bool.not_eq_true', List.isEmpty_eq_false_iff, List.all_eq_true,
      Option.isNone_iff_eq_none] at h
    obtain ⟨⟨hne, hchars⟩, hname⟩ := h
    rw [text, readFrom_atom hne hchars hrest, ofAtom, hname]
    simp [onLine]
  | list [] _, _ => by
    simp [text, readFrom_opening, readFrom_closing, OpenList.close, onLine, onLineAll]
  | list (first :: others) start, h => by
    rw [isWritable_list, all_isWritable, List.all_cons, Bool.and_eq_true] at h
    have htext : (text (list (first :: others) start)).toList ++ rest =
        '(' :: (first.text.toList ++ ((textRest others).toList ++ ')' :: rest)) := by
      simp [text]
    rw [htext, readFrom_opening, readFrom_text (endsAtom_textRest others rest) first h.1,
      readFrom_textRest others h.2, readFrom_closing, close_foldl_add]
    simp [OpenList.add, onLine, onLineAll]

/-- The texts of further elements are read as these. -/
theorem readFrom_textRest {line : Nat} {rest : List Char} {inner : OpenList}
    {enclosing : Stack OpenList} :
    ∀ exprs : List SExpr, exprs.all isWritable = true →
      readFrom line ((textRest exprs).toList ++ ')' :: rest) inner enclosing =
        readFrom line (')' :: rest) ((onLineAll line exprs).foldl OpenList.add inner) enclosing
  | [], _ => by simp [textRest, onLineAll]
  | expr :: exprs, h => by
    rw [List.all_cons, Bool.and_eq_true] at h
    have htext : (textRest (expr :: exprs)).toList ++ ')' :: rest =
        ' ' :: (expr.text.toList ++ ((textRest exprs).toList ++ ')' :: rest)) := by
      simp [textRest]
    rw [htext, readFrom_blank (by decide), readFrom_text (endsAtom_textRest exprs rest) expr h.1,
      readFrom_textRest exprs h.2]
    simp [onLineAll]

end

/-- Expressions that can be written are read back from every text that spells them. -/
theorem Spells.readFrom {exprs : List SExpr} {inner : OpenList} {chars : List Char} {line : Nat}
    (h : Spells exprs chars) (hwritable : exprs.all isWritable = true) :
    ∃ read, SExpr.readFrom line chars inner .empty = .ok (inner.items.reverse ++ read) ∧
      SameTrees read exprs := by
  induction h generalizing line inner with
  | nil => exact ⟨[], by simp [SExpr.readFrom, Lexeme.scan, assemble, Stack.isEmpty_iff], rfl⟩
  | single expr =>
    have hexpr : expr.isWritable = true := by simpa using hwritable
    have hread := @readFrom_text line [] inner .empty (by simp [EndsAtom]) expr hexpr
    rw [List.append_nil] at hread
    refine ⟨[expr.onLine line], ?_, ?_⟩
    · rw [hread]
      simp [SExpr.readFrom, Lexeme.scan, assemble, Stack.isEmpty_iff, OpenList.add]
    · simp [SameTrees, onLineAll, onLine_onLine]
  | @cons expr exprs gap rest hgap hrest ih =>
    rw [List.all_cons, Bool.and_eq_true] at hwritable
    obtain ⟨next, hnext⟩ := @readFrom_gap line (inner.add (expr.onLine line)) .empty gap hgap
    obtain ⟨read, hread, hsame⟩ := @ih (inner.add (expr.onLine line)) next hwritable.2
    refine ⟨expr.onLine line :: read, ?_, ?_⟩
    · rw [List.append_assoc, readFrom_text hgap.endsAtom expr hwritable.1, hnext, hread]
      simp [OpenList.add]
    · simpa [SameTrees, onLineAll, onLine_onLine] using hsame

/-! ## What was read can be written -/

/-- A token of atom characters can be written. -/
theorem isWritable_mark {lexeme : Lexeme}
    (h : ∀ chars, lexeme.token = .atom chars →
      chars ≠ [] ∧ ∀ c ∈ chars, Token.isAtomChar c = true) : lexeme.mark.isWritable = true := by
  obtain ⟨token, line⟩ := lexeme
  cases token with
  | opening | closing => rfl
  | atom chars =>
    obtain ⟨hne, hchars⟩ := h chars rfl
    cases hword : Decimal.toWord? chars with
    | some value => simp [Lexeme.mark, hword, Mark.isWritable]
    | none => simpa [Lexeme.mark, hword, Mark.isWritable, hne] using hchars

/-- Atoms are non-empty runs of atom characters. -/
theorem isAtomChar_of_startingAt? {before after chars : List Char} {c : Char}
    (h : Lexeme.startingAt? before c after = some (.atom chars)) :
    chars ≠ [] ∧ ∀ d ∈ chars, Token.isAtomChar d = true := by
  unfold Lexeme.startingAt? at h
  split at h
  · cases h
  split at h
  · cases h
  split at h
  · cases h
  split at h
  · next hatom =>
    cases h
    have hc : Token.isAtomChar c = true := by simp_all
    exact ⟨by simp, List.forall_mem_cons.mpr ⟨hc, fun d hd => List.mem_takeWhile_imp hd⟩⟩
  · cases h

/-- The tokens of a text are read as marks that can be written. -/
theorem isWritable_tokensAfter (before rest : List Char) :
    ∀ lexeme ∈ Lexeme.tokensAfter before rest, lexeme.mark.isWritable = true := by
  induction rest generalizing before with
  | nil => simp [Lexeme.tokensAfter]
  | cons c rest ih =>
    intro lexeme hlexeme
    rw [Lexeme.tokensAfter, List.mem_append] at hlexeme
    rcases hlexeme with hstart | hrest
    · obtain ⟨token, htoken, rfl⟩ := Option.map_eq_some_iff.mp (Option.mem_toList.mp hstart)
      exact isWritable_mark fun chars hchars =>
        isAtomChar_of_startingAt? (htoken.trans (congrArg some hchars))
    · exact ih _ lexeme hrest

/-- What was read can be written. -/
theorem isWritable_of_readAll {text : List Char} {exprs : List SExpr}
    (h : readAll text = .ok exprs) : exprs.all isWritable = true := by
  rw [← all_isWritable, marksAll_of_readAll h, List.all_map, List.all_eq_true]
  exact isWritable_tokensAfter [] text

/-- Expressions whose symbols are non-empty runs of characters of atoms, and no numerals of words,
are read back from their texts up to the lines, whatever white space and comments stand between
the texts. So if a text can be read, then reading what was read from its own text again gives the
same expressions up to the lines. -/
theorem readAll_undoes_text :
    (∀ exprs text, exprs.all isWritable = true → Spells exprs text →
      ∃ read, readAll text = .ok read ∧ SameTrees read exprs) ∧
    (∀ text exprs, readAll text = .ok exprs → ∀ written, Spells exprs written →
      ∃ again, readAll written = .ok again ∧ SameTrees again exprs) := by
  have hread : ∀ exprs text, exprs.all isWritable = true → Spells exprs text →
      ∃ read, readAll text = .ok read ∧ SameTrees read exprs := fun exprs text hwritable hspells =>
    @Spells.readFrom exprs { line := 0 } text 1 hspells hwritable
  exact ⟨hread, fun text exprs htext written hspells =>
    hread exprs written (isWritable_of_readAll htext) hspells⟩

/-- The least word and an empty list with a comment after them; then numerals with a sign, with
leading zeros and beyond the words, which are written in another way than they were read. -/
theorem readAll_undoes_text_numerals :
    let pair := [list [int (-9223372036854775808) 4, list [] 4] 4, symbol "b-1" 9]
    let numerals := [list [int 5 1, int 7 2, symbol "9223372036854775808" 2] 1]
    pair.all isWritable = true ∧
    Spells pair "(-9223372036854775808 ());(\n\tb-1".toList ∧
    (∃ read, readAll "(-9223372036854775808 ());(\n\tb-1".toList = .ok read ∧
      SameTrees read pair) ∧
    readAll "(+5\n007 9223372036854775808)".toList = .ok numerals ∧
    Spells numerals "(5 7 9223372036854775808)".toList ∧
    ∃ again, readAll "(5 7 9223372036854775808)".toList = .ok again ∧
      SameTrees again numerals := by
  intro pair numerals
  have hpair : pair.all isWritable = true := by decide +kernel
  have hspells : Spells pair "(-9223372036854775808 ());(\n\tb-1".toList := by
    have htext : (list [int (-9223372036854775808) 4, list [] 4] 4).text =
        "(-9223372036854775808 ())" := by decide +kernel
    have h := Spells.cons (list [int (-9223372036854775808) 4, list [] 4] 4)
      (.append (@Gap.comment ['('] (by decide)) (@Gap.blank '\t' (by decide)))
      (.single (symbol "b-1" 9))
    rwa [htext] at h
  have hread : readAll "(+5\n007 9223372036854775808)".toList = .ok numerals := by
    with_unfolding_all rfl
  have hnumerals : Spells numerals "(5 7 9223372036854775808)".toList := by
    have htext : (list [int 5 1, int 7 2, symbol "9223372036854775808" 2] 1).text =
        "(5 7 9223372036854775808)" := by decide +kernel
    exact htext ▸ .single _
  exact ⟨hpair, hspells, readAll_undoes_text.1 pair _ hpair hspells, hread, hnumerals,
    readAll_undoes_text.2 _ numerals hread _ hnumerals⟩

end SExpr
end RegisterAllocation
