import RegisterAllocation.Text.Letter
import RegisterAllocation.Text.Digit
import RegisterAllocation.Text.Blank

/-!
# Tokens of s-expressions

A text is a sequence of parentheses and atoms, separated by white space and by comments that run
from a semicolon to the end of the line. `Lexeme.scan` stops at the first character that belongs
to none of these.
-/

namespace RegisterAllocation

/-- A token: a parenthesis or a maximal run of symbol characters. -/
inductive Token where
  | opening
  | closing
  | atom (chars : List Char)
deriving DecidableEq, Repr

/-- A token and its line. -/
structure Lexeme where
  token : Token
  line : Nat
deriving DecidableEq, Repr

/-- How scanning came to an end: at the end of the text, or at a character that starts no token. -/
inductive Ending where
  | finished (line : Nat)
  | stuck (line : Nat) (c : Char)
deriving DecidableEq, Repr

namespace Token

/-- The punctuation that may stand in an atom. -/
def atomPunctuation : List Char := [':', '_', '*', '&', '-', '+', '.', '/', '$', '<', '>', '[']

def isAtomChar (c : Char) : Bool := isLetter c || isDigit c || atomPunctuation.contains c

end Token

namespace Lexeme

/-- The tokens of a text whose first line has the number `line`. -/
def scan (line : Nat) : List Char → List Lexeme × Ending
  | [] => ([], .finished line)
  | c :: cs =>
    if c = '\n' then scan (line + 1) cs
    else if isBlank c then scan line cs
    else if c = ';' then scan line (cs.dropWhile (· ≠ '\n'))
    else if c = '(' then
      let (lexemes, ending) := scan line cs
      (⟨.opening, line⟩ :: lexemes, ending)
    else if c = ')' then
      let (lexemes, ending) := scan line cs
      (⟨.closing, line⟩ :: lexemes, ending)
    else if Token.isAtomChar c then
      let (lexemes, ending) := scan line (cs.dropWhile Token.isAtomChar)
      (⟨.atom (c :: cs.takeWhile Token.isAtomChar), line⟩ :: lexemes, ending)
    else ([], .stuck line c)
termination_by cs => cs.length
decreasing_by
  all_goals first
    | exact Nat.lt_succ_self _
    | exact Nat.lt_succ_of_le (List.dropWhile_suffix _).length_le

end Lexeme
end RegisterAllocation
