import RegisterAllocation.Container.Stack
import RegisterAllocation.SExpr.Basic
import RegisterAllocation.SExpr.Token
import RegisterAllocation.Text.Quoted

/-!
# Reading s-expressions

`SExpr.readAll` reads every expression of a text and `SExpr.readOne` a text that holds exactly
one. The first fault in the order of the text is reported.
-/

namespace RegisterAllocation

/-- Why a text is not a sequence of s-expressions. -/
inductive ReadError where
  | unexpectedClose (line : Nat)
  | unterminated (line start : Nat)
  | unknownChar (line : Nat) (c : Char)
  | notOne (count : Nat)
deriving DecidableEq, Repr

namespace ReadError

/-- The text of a reading error. -/
def message : ReadError → String
  | unexpectedClose line => "line " ++ Decimal.ofNat line ++ ": unexpected ')'"
  | unterminated line start =>
    "line " ++ Decimal.ofNat line ++ ": unterminated list starting on line "
      ++ Decimal.ofNat start
  | unknownChar line c =>
    "line " ++ Decimal.ofNat line ++ ": unrecognized s-expression character " ++ Quoted.char c
  | notOne count => "expected one s-expression, found " ++ Decimal.ofNat count

end ReadError

namespace SExpr

/-- An atom is an integer if it is the decimal text of a word, and a symbol otherwise. -/
def ofAtom (chars : List Char) (line : Nat) : SExpr :=
  match Decimal.toWord? chars with
  | some value => .int value line
  | none => .symbol (String.ofList chars) line

/-- A list that is not closed yet, with its elements so far, last one first. -/
structure OpenList where
  line : Nat
  items : List SExpr := []

def OpenList.add (list : OpenList) (item : SExpr) : OpenList :=
  { list with items := item :: list.items }

def OpenList.close (list : OpenList) : SExpr := .list list.items.reverse list.line

/-- Builds the trees of a token sequence. `inner` is the innermost open list, and those around it
are on a stack. At the bottom are the expressions of the text itself. -/
def assemble (ending : Ending) :
    List Lexeme → OpenList → Stack OpenList → Except ReadError (List SExpr)
  | [], inner, enclosing =>
    match ending with
    | .stuck line c => .error (.unknownChar line c)
    | .finished line =>
      if enclosing.isEmpty then .ok inner.items.reverse
      else .error (.unterminated line inner.line)
  | ⟨.opening, line⟩ :: lexemes, inner, enclosing =>
    assemble ending lexemes { line } (enclosing.push inner)
  | ⟨.closing, line⟩ :: lexemes, inner, enclosing =>
    match enclosing.pop with
    | .error _ => .error (.unexpectedClose line)
    | .ok (outer, enclosing) => assemble ending lexemes (outer.add inner.close) enclosing
  | ⟨.atom chars, line⟩ :: lexemes, inner, enclosing =>
    assemble ending lexemes (inner.add (ofAtom chars line)) enclosing

def readAll (text : List Char) : Except ReadError (List SExpr) :=
  let (lexemes, ending) := Lexeme.scan 1 text
  assemble ending lexemes { line := 0 } .empty

/-- Reads a text that holds one expression. -/
def readOne (text : List Char) : Except ReadError SExpr := do
  match ← readAll text with
  | [expr] => .ok expr
  | exprs => .error (.notOne exprs.length)

end SExpr
end RegisterAllocation
