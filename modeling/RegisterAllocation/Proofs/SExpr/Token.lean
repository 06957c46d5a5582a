import RegisterAllocation.SExpr.Token
import Mathlib.Data.List.TakeWhile

/-!
# Where the tokens of a text are

The tokens of a text are said here without scanning it: at each position one looks at the
characters before it, which tell whether the position lies in a comment or within an atom, and at
the characters after it. `Lexeme.scan_finished_iff` and `Lexeme.scan_tokens`: scanning comes to
the end of exactly the texts that hold nothing but tokens, white space and comments, and then it
has found the tokens.
-/

namespace RegisterAllocation

/-! ## Kinds of characters -/

/-- No range of one table meets a range of the other. -/
def CodeRanges.apart (left right : CodeRanges) : Bool :=
  left.toList.all fun l => right.toList.all fun r => Nat.blt l.2 r.1 || Nat.blt r.2 l.1

/-- Characters of one set are not in a set apart from it. -/
theorem CodeRanges.not_contains_of_apart {left right : CodeRanges} {c : Char}
    (hapart : left.apart right = true) (hleft : left.contains c = true) :
    right.contains c = false := by
  rw [CodeRanges.contains, ← Array.any_toList, List.any_eq_true] at hleft
  rw [CodeRanges.contains, ← Array.any_toList, List.any_eq_false]
  obtain ⟨l, hl, hcl⟩ := hleft
  intro r hr
  have hlr := List.all_eq_true.mp (List.all_eq_true.mp hapart l hl) r hr
  simp only [Bool.and_eq_true, decide_eq_true_eq, Bool.or_eq_true, Nat.blt_eq] at hcl hlr ⊢
  omega

/-- There are six blank characters among the basic ones. -/
theorem eq_of_isBlank_of_lt {c : Char} (hblank : isBlank c = true) (hlt : c.toNat < 0x80) :
    c ∈ [' ', '\t', '\n', '\x0b', '\x0c', '\r'] := by
  have hcode : c.toNat ∈ [32, 9, 10, 11, 12, 13] := by
    simp only [isBlank, hlt, if_true, Bool.or_eq_true, decide_eq_true_eq, Bool.and_eq_true]
      at hblank
    rcases hblank with rfl | hrange
    · decide
    · simp only [List.mem_cons, List.not_mem_nil]
      omega
  rw [← Char.ofNat_toNat c]
  exact List.mem_map_of_mem (f := Char.ofNat) hcode

/-- White space does not stand in an atom. -/
theorem Token.isAtomChar_of_isBlank {c : Char} (h : isBlank c = true) :
    Token.isAtomChar c = false := by
  by_cases hlt : c.toNat < 0x80
  · have hlisted := eq_of_isBlank_of_lt h hlt
    simp only [List.mem_cons, List.not_mem_nil, or_false] at hlisted
    rcases hlisted with rfl | rfl | rfl | rfl | rfl | rfl <;> rfl
  · have hblank : blankRanges.contains c = true := by simpa [isBlank, hlt] using h
    have hletter : letterRanges.contains c = false :=
      CodeRanges.not_contains_of_apart (by decide +kernel) hblank
    have hdigit : digitRanges.contains c = false :=
      CodeRanges.not_contains_of_apart (by decide +kernel) hblank
    have hbasic : atomPunctuation.all (fun d => decide (d.toNat < 0x80)) = true := by decide
    have hpunctuation : c ∉ atomPunctuation := fun hmem =>
      hlt (by simpa using List.all_eq_true.mp hbasic c hmem)
    simp [Token.isAtomChar, isLetter, isDigit, hlt, hletter, hdigit, hpunctuation]

/-- Whether scanning came to the end of the text. -/
def Ending.isFinished : Ending → Bool
  | .finished _ => true
  | .stuck .. => false

namespace Lexeme

/-! ## Comments -/

/-- Whether the last character of a text belongs to a comment: there is a semicolon after the last
line end. -/
def endsInComment (text : List Char) : Bool :=
  (text.reverse.takeWhile (· ≠ '\n')).contains ';'

/-- A line break ends a comment. -/
@[simp]
theorem endsInComment_newline (before : List Char) :
    endsInComment (before ++ ['\n']) = false := by
  simp [endsInComment]

/-- A semicolon starts a comment, and other characters go on with what there is. -/
theorem endsInComment_append {c : Char} (before : List Char) (hc : c ≠ '\n') :
    endsInComment (before ++ [c]) = (decide (c = ';') || endsInComment before) := by
  simp [endsInComment, hc, eq_comm]

/-! ## Tokens -/

/-- The token that starts at the character `c` between `before` and `after`, if one does. -/
def startingAt? (before : List Char) (c : Char) (after : List Char) : Option Token :=
  if endsInComment (before ++ [c]) then none
  else if c = '(' then some .opening
  else if c = ')' then some .closing
  else if Token.isAtomChar c && !before.getLast?.any Token.isAtomChar then
    some (.atom (c :: after.takeWhile Token.isAtomChar))
  else none

/-- The tokens that start in the second part of the text `before ++ rest`. The line of a token is
one plus the number of line ends before it. -/
def tokensAfter (before : List Char) : List Char → List Lexeme
  | [] => []
  | c :: after =>
    ((startingAt? before c after).map (⟨·, 1 + before.count '\n'⟩)).toList
      ++ tokensAfter (before ++ [c]) after

def tokens (text : List Char) : List Lexeme := tokensAfter [] text

/-- Outside comments, there are only white space, parentheses and characters of atoms in the
second part of the text `before ++ rest`. -/
def LegibleAfter (before rest : List Char) : Prop :=
  ∀ init c after, rest = init ++ c :: after → endsInComment (before ++ init ++ [c]) = false →
    isBlank c = true ∨ c = '(' ∨ c = ')' ∨ Token.isAtomChar c = true

/-- Outside comments, there are only white space, parentheses and characters of atoms. -/
def Legible (text : List Char) : Prop :=
  ∀ before c after, text = before ++ c :: after → endsInComment (before ++ [c]) = false →
    isBlank c = true ∨ c = '(' ∨ c = ')' ∨ Token.isAtomChar c = true

/-- A text is legible if its first character is and the rest. -/
theorem legibleAfter_cons {before rest : List Char} {c : Char} :
    LegibleAfter before (c :: rest) ↔
      (endsInComment (before ++ [c]) = false →
        isBlank c = true ∨ c = '(' ∨ c = ')' ∨ Token.isAtomChar c = true) ∧
      LegibleAfter (before ++ [c]) rest := by
  constructor
  · intro h
    refine ⟨h [] c rest rfl ∘ by simp, fun init d after hrest hd => ?_⟩
    exact h (c :: init) d after (by rw [hrest, List.cons_append]) (by simpa using hd)
  · rintro ⟨hc, hrest⟩ init d after heq hd
    cases init with
    | nil =>
      obtain ⟨rfl, rfl⟩ := List.cons.inj heq
      exact hc (by simpa using hd)
    | cons e init =>
      obtain ⟨rfl, rfl⟩ := List.cons.inj heq
      exact hrest init d after rfl (by simpa using hd)

theorem legibleAfter_nil {before : List Char} : LegibleAfter before [] := by
  intro init c after h
  simp at h

/-! ## Runs of characters that start no token -/

/-- Reading on after `before`, one comes past the characters `run` without finding a token and
without an illegible character. -/
structure Passes (before run rest : List Char) : Prop where
  tokens : tokensAfter before (run ++ rest) = tokensAfter (before ++ run) rest
  legible : LegibleAfter before (run ++ rest) ↔ LegibleAfter (before ++ run) rest

theorem Passes.nil {before rest : List Char} : Passes before [] rest := by
  constructor <;> simp

/-- A character that starts no token is passed over. -/
theorem Passes.cons {before run rest : List Char} {c : Char}
    (hstart : startingAt? before c (run ++ rest) = none)
    (hlegible : endsInComment (before ++ [c]) = false →
      isBlank c = true ∨ c = '(' ∨ c = ')' ∨ Token.isAtomChar c = true)
    (h : Passes (before ++ [c]) run rest) : Passes before (c :: run) rest where
  tokens := by simpa [tokensAfter, hstart] using h.tokens
  legible := by
    rw [List.cons_append, legibleAfter_cons, h.legible, and_iff_right hlegible, List.append_assoc,
      List.singleton_append]

/-- White space is passed over. -/
theorem passes_blank {before rest : List Char} {c : Char} (h : isBlank c = true) :
    Passes before [c] rest := by
  have hopening : c ≠ '(' := by
    rintro rfl
    exact absurd h (by decide)
  have hclosing : c ≠ ')' := by
    rintro rfl
    exact absurd h (by decide)
  refine .cons ?_ (fun _ => .inl h) .nil
  simp [startingAt?, hopening, hclosing, Token.isAtomChar_of_isBlank h]

/-- A comment goes on to the end of the line. -/
theorem passes_comment {before run rest : List Char} (hbefore : endsInComment before = true)
    (hrun : ∀ c ∈ run, c ≠ '\n') : Passes before run rest := by
  induction run generalizing before with
  | nil => exact .nil
  | cons c run ih =>
    obtain ⟨hc, hrun⟩ := List.forall_mem_cons.mp hrun
    have hnext : endsInComment (before ++ [c]) = true := by
      rw [endsInComment_append before hc, hbefore, Bool.or_true]
    exact .cons (by simp [startingAt?, hnext]) (by simp [hnext]) (ih hnext hrun)

/-- A comment is passed over. -/
theorem passes_semicolon {before run rest : List Char} (hrun : ∀ c ∈ run, c ≠ '\n') :
    Passes before (';' :: run) rest := by
  have hsemicolon : endsInComment (before ++ [';']) = true := by
    simp [endsInComment_append before (show ';' ≠ '\n' by decide)]
  exact .cons (by simp [startingAt?, hsemicolon]) (by simp [hsemicolon])
    (passes_comment hsemicolon hrun)

theorem isAtomChar_ne {c : Char} (h : Token.isAtomChar c = true) :
    c ≠ '\n' ∧ c ≠ ';' ∧ c ≠ '(' ∧ c ≠ ')' := by
  refine ⟨?_, ?_, ?_, ?_⟩ <;> (rintro rfl; exact absurd h (by decide))

/-- The characters of an atom start no comment. -/
theorem endsInComment_atom {before run : List Char} (hbefore : endsInComment before = false)
    (hrun : ∀ c ∈ run, Token.isAtomChar c = true) : endsInComment (before ++ run) = false := by
  induction run generalizing before with
  | nil => simpa using hbefore
  | cons c run ih =>
    obtain ⟨hc, hrun⟩ := List.forall_mem_cons.mp hrun
    obtain ⟨hline, hcomment, -⟩ := isAtomChar_ne hc
    rw [List.append_cons]
    exact ih (by simp [endsInComment_append before hline, hcomment, hbefore]) hrun

/-- No token starts within an atom. -/
theorem passes_atom {before run rest : List Char} (hbefore : endsInComment before = false)
    (hlast : before.getLast?.any Token.isAtomChar = true)
    (hrun : ∀ c ∈ run, Token.isAtomChar c = true) : Passes before run rest := by
  induction run generalizing before with
  | nil => exact .nil
  | cons c run ih =>
    obtain ⟨hc, hrun⟩ := List.forall_mem_cons.mp hrun
    obtain ⟨hline, hcomment, hopening, hclosing⟩ := isAtomChar_ne hc
    have hnext : endsInComment (before ++ [c]) = false := by
      simp [endsInComment_append before hline, hcomment, hbefore]
    refine .cons ?_ (fun _ => .inr (.inr (.inr hc))) (ih hnext (by simpa using hc) hrun)
    simp [startingAt?, hopening, hclosing, hlast]

/-! ## Scanning -/

/-- What is dropped ends where the condition does. -/
theorem eq_false_of_mem_head?_dropWhile {p : Char → Bool} {chars : List Char} {c : Char}
    (h : c ∈ (chars.dropWhile p).head?) : p c = false := by
  have hhead := List.head?_dropWhile_not p chars
  rwa [Option.mem_def.mp h] at hhead

/-- A position at which scanning can go on: a comment has come to its end and so has an atom. -/
structure Boundary (before rest : List Char) : Prop where
  comment : endsInComment before = true → ∀ c ∈ rest.head?, c = '\n'
  atom : before.getLast?.any Token.isAtomChar = true → ∀ c ∈ rest.head?, Token.isAtomChar c = false

/-- Between tokens there is no comment. -/
theorem Boundary.endsInComment_append {before rest : List Char} {c : Char}
    (h : Boundary before (c :: rest)) (hline : c ≠ '\n') (hcomment : c ≠ ';') :
    endsInComment (before ++ [c]) = false := by
  have hbefore : endsInComment before = false := by
    by_contra hin
    exact hline (h.comment (by simpa using hin) c rfl)
  simp [Lexeme.endsInComment_append before hline, hcomment, hbefore]

/-- After a character that belongs neither to a comment nor to an atom. -/
theorem Boundary.of_append {before rest : List Char} {c : Char}
    (hcomment : endsInComment (before ++ [c]) = false) (hatom : Token.isAtomChar c = false) :
    Boundary (before ++ [c]) rest where
  comment := by simp [hcomment]
  atom := by simp [hatom]

/-- Every comment and every atom ends with its line. -/
theorem Boundary.of_lineEnd {before rest : List Char} (h : ∀ c ∈ rest.head?, c = '\n') :
    Boundary before rest where
  comment _ := h
  atom _ c hc := by
    rw [h c hc]
    decide

/-- The tokens found after `before` are the right ones, and the end of the text was reached if
there is no illegible character. -/
structure Scanned (before rest : List Char) (result : List Lexeme × Ending) : Prop where
  finished : result.2.isFinished = true ↔ LegibleAfter before rest
  tokens : LegibleAfter before rest → result.1 = tokensAfter before rest

/-- What is passed over adds no token. -/
theorem Passes.scanned {before run rest : List Char} {result : List Lexeme × Ending}
    (hpass : Passes before run rest) (h : Scanned (before ++ run) rest result) :
    Scanned before (run ++ rest) result where
  finished := h.finished.trans hpass.legible.symm
  tokens := fun hlegible => (h.tokens (hpass.legible.mp hlegible)).trans hpass.tokens.symm

/-- A token that starts here comes first. -/
theorem Scanned.token {before rest : List Char} {c : Char} {token : Token} {line : Nat}
    {lexemes : List Lexeme} {ending : Ending} (hline : line = 1 + before.count '\n')
    (hstart : startingAt? before c rest = some token)
    (hc : isBlank c = true ∨ c = '(' ∨ c = ')' ∨ Token.isAtomChar c = true)
    (h : Scanned (before ++ [c]) rest (lexemes, ending)) :
    Scanned before (c :: rest) (⟨token, line⟩ :: lexemes, ending) where
  finished := by rw [legibleAfter_cons, and_iff_right fun _ => hc, ← h.finished]
  tokens := fun hlegible => by
    have hrest := h.tokens (legibleAfter_cons.mp hlegible).2
    simp_all [tokensAfter]

/-- Scanning from a boundary on finds what there is after it. -/
theorem scan_spec {before rest : List Char} {line : Nat} (hboundary : Boundary before rest)
    (hline : line = 1 + before.count '\n') : Scanned before rest (scan line rest) := by
  -- The induction is on the rounds of the scan: each round goes on to another boundary.
  fun_induction scan line rest generalizing before with
  | case1 line => exact ⟨by simp [Ending.isFinished, legibleAfter_nil], fun _ => rfl⟩
  | case2 line cs ih =>
    have hnext : Boundary (before ++ ['\n']) cs :=
      .of_append (endsInComment_newline before) (by decide)
    exact (passes_blank (by decide)).scanned (ih hnext (by simp [hline]; omega))
  | case3 line c cs hnewline hblank ih =>
    have hcomment : c ≠ ';' := by
      rintro rfl
      exact absurd hblank (by decide)
    have hnext : Boundary (before ++ [c]) cs :=
      .of_append (hboundary.endsInComment_append hnewline hcomment)
        (Token.isAtomChar_of_isBlank hblank)
    exact (passes_blank hblank).scanned (ih hnext (by simp [hnewline, hline]))
  | case4 line cs hnewline hblank ih =>
    have hrun : ∀ c ∈ cs.takeWhile (· ≠ '\n'), c ≠ '\n' := fun c hc => by
      simpa using List.mem_takeWhile_imp hc
    have hcount : (cs.takeWhile (· ≠ '\n')).count '\n' = 0 :=
      List.count_eq_zero.mpr fun h => hrun _ h rfl
    have hnext : Boundary (before ++ ';' :: cs.takeWhile (· ≠ '\n'))
        (cs.dropWhile (· ≠ '\n')) :=
      .of_lineEnd fun c hc => by simpa using eq_false_of_mem_head?_dropWhile hc
    have hscanned := (passes_semicolon hrun).scanned (ih hnext (by
      rw [List.count_append, List.count_cons_of_ne (by decide), hcount, hline, Nat.add_zero]))
    rwa [List.cons_append, List.takeWhile_append_dropWhile] at hscanned
  | case5 line cs lexemes ending hscan hnewline hblank hcomment ih =>
    have hlegible := hboundary.endsInComment_append hnewline hcomment
    have hnext : Boundary (before ++ ['(']) cs := .of_append hlegible (by decide)
    rw [hscan] at ih
    exact (ih hnext (by simp [hline])).token hline (by simp [startingAt?, hlegible])
      (.inr (.inl rfl))
  | case6 line cs lexemes ending hscan hnewline hblank hcomment hopening ih =>
    have hlegible := hboundary.endsInComment_append hnewline hcomment
    have hnext : Boundary (before ++ [')']) cs := .of_append hlegible (by decide)
    rw [hscan] at ih
    exact (ih hnext (by simp [hline])).token hline (by simp [startingAt?, hlegible])
      (.inr (.inr (.inl rfl)))
  | case7 line c cs hnewline hblank hcomment hopening hclosing hatom lexemes ending hscan ih =>
    have hlegible := hboundary.endsInComment_append hnewline hcomment
    have hrun : ∀ d ∈ cs.takeWhile Token.isAtomChar, Token.isAtomChar d = true :=
      fun d hd => List.mem_takeWhile_imp hd
    have hpass : Passes (before ++ [c]) (cs.takeWhile Token.isAtomChar)
        (cs.dropWhile Token.isAtomChar) :=
      passes_atom hlegible (by simpa using hatom) hrun
    have hnext : Boundary (before ++ [c] ++ cs.takeWhile Token.isAtomChar)
        (cs.dropWhile Token.isAtomChar) :=
      ⟨by simp only [endsInComment_atom hlegible hrun]; simp,
        fun _ _ hd => eq_false_of_mem_head?_dropWhile hd⟩
    have hcount : (cs.takeWhile Token.isAtomChar).count '\n' = 0 :=
      List.count_eq_zero.mpr fun h => (isAtomChar_ne (hrun _ h)).1 rfl
    rw [hscan] at ih
    have hscanned := hpass.scanned (ih hnext (by simp [hline, hnewline, hcount]))
    rw [List.takeWhile_append_dropWhile] at hscanned
    refine hscanned.token hline ?_ (.inr (.inr (.inr hatom)))
    have hlast : before.getLast?.any Token.isAtomChar = false := by
      by_contra hin
      simp [hboundary.atom (by simpa using hin) c rfl] at hatom
    simp [startingAt?, hlegible, hopening, hclosing, hatom, hlast]
  | case8 line c cs hnewline hblank hcomment hopening hclosing hatom =>
    have hlegible := hboundary.endsInComment_append hnewline hcomment
    have hstuck : ¬LegibleAfter before (c :: cs) := fun h => by
      have hc := (legibleAfter_cons.mp h).1 hlegible
      simp_all
    exact ⟨by simp [Ending.isFinished, hstuck], fun h => absurd h hstuck⟩

/-- Scanning finds the tokens of a text. -/
theorem scanned_text (text : List Char) : Scanned [] text (scan 1 text) :=
  scan_spec ⟨by simp [endsInComment], by simp⟩ (by simp)

/-- Scanning comes to the end of exactly the legible texts. -/
theorem scan_finished_iff {text : List Char} :
    (scan 1 text).2.isFinished = true ↔ Legible text :=
  (scanned_text text).finished

/-- Scanning finds the tokens of a legible text. -/
theorem scan_tokens {text : List Char} (h : Legible text) : (scan 1 text).1 = tokens text :=
  (scanned_text text).tokens h

end Lexeme
end RegisterAllocation
