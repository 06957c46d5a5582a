import RegisterAllocation.Text.Hexadecimal

/-!
# Strings of settings files

Four forms: between double quotes with escapes, between single quotes without, and each of these
between triple quotes over several lines. The readers start behind the opening quotes and give the
string and the text behind the closing ones.
-/

namespace RegisterAllocation
namespace Toml

def isNewline (c : Char) : Bool := c = '\n' || c = '\r'

/-- Whether a character is a blank within a line. -/
def isBlankChar (c : Char) : Bool := c = ' ' || c = '\t'

/-- The character with the code that hexadecimal digits spell. -/
def charOfDigits? (digits : List Char) : Option Char := do
  let n ← Hexadecimal.value? digits
  if n.isValidChar then some (Char.ofNat n) else none

/-- The characters of escapes with one letter. -/
def letterEscape? : Char → Option Char
  | 'b' => some '\x08'
  | 't' => some '\t'
  | 'n' => some '\n'
  | 'f' => some '\x0c'
  | 'r' => some '\r'
  | 'e' => some '\x1b'
  | '"' => some '"'
  | '\\' => some '\\'
  | _ => none

/-- The number of digits of escapes that spell a code. -/
def codeLength? : Char → Option Nat
  | 'x' => some 2
  | 'u' => some 4
  | 'U' => some 8
  | _ => none

/-- The character of the escape behind a backslash, whose letter is `letter`, and how many of the
characters `cs` behind the letter belong to it. -/
def escape? (letter : Char) (cs : List Char) : Option (Char × Nat) :=
  match codeLength? letter with
  | some length =>
    if (cs.take length).length = length then do return (← charOfDigits? (cs.take length), length)
    else none
  | none => do return (← letterEscape? letter, 0)

/-- Reads a string between double quotes. -/
def readBasic? : List Char → Option (List Char × List Char)
  | [] => none
  | '\\' :: [] => none
  | '\\' :: letter :: cs =>
    match escape? letter cs with
    | none => none
    | some (c, more) =>
      match readBasic? (cs.drop more) with
      | none => none
      | some (string, rest) => some (c :: string, rest)
  | c :: cs =>
    if c = '"' then some ([], cs)
    else if isNewline c then none
    else match readBasic? cs with
      | none => none
      | some (string, rest) => some (c :: string, rest)
termination_by cs => cs.length
decreasing_by
  all_goals (simp only [List.length_drop, List.length_cons]; omega)

/-- Reads a string between single quotes. -/
def readRaw? : List Char → Option (List Char × List Char)
  | [] => none
  | c :: cs =>
    if c = '\x27' then some ([], cs)
    else if isNewline c then none
    else do
      let (string, rest) ← readRaw? cs
      some (c :: string, rest)

/-- A string without the newline at its start. -/
def dropFirstNewline : List Char → List Char
  | '\n' :: cs => cs
  | '\r' :: '\n' :: cs => cs
  | cs => cs

/-- The number of quotes at the start of a text. -/
def countQuotes (quote : Char) (cs : List Char) : Nat := (cs.takeWhile (· = quote)).length

/-- Reads a string between triple double quotes. Up to five quotes in a row end it, the last three
of which are no part of it; behind an escaped backslash there may be six. A backslash at the end of
a line takes the blanks and newlines behind it away. -/
def readBasicLines? (afterBackslash : Bool) : List Char → Option (List Char × List Char)
  | [] => none
  | c :: cs =>
    if c = '"' then
      let count := countQuotes '"' cs + 1
      if 3 ≤ count then
        if count ≤ (if afterBackslash then 6 else 5) then
          some (List.replicate (count - 3) '"', cs.drop (count - 1))
        else none
      else match readBasicLines? false (cs.drop (count - 1)) with
        | none => none
        | some (string, rest) => some (List.replicate count '"' ++ string, rest)
    else if c = '\\' then
      let blanks := cs.takeWhile fun c => isBlankChar c || isNewline c
      if blanks.isEmpty then
        match cs with
        | [] => none
        | letter :: more =>
          match escape? letter more with
          | none => none
          | some (c, length) =>
            match readBasicLines? (letter = '\\') (more.drop length) with
            | none => none
            | some (string, rest) => some (c :: string, rest)
      else if blanks.contains '\n' then readBasicLines? false (cs.drop blanks.length)
      else none
    else match readBasicLines? false cs with
      | none => none
      | some (string, rest) => some (c :: string, rest)
termination_by cs => cs.length
decreasing_by
  all_goals (simp only [List.length_drop, List.length_cons]; omega)

/-- Reads a string between triple single quotes. Up to five quotes in a row end it. -/
def readRawLines? : List Char → Option (List Char × List Char)
  | [] => none
  | c :: cs =>
    if c = '\x27' then
      let count := countQuotes '\x27' cs + 1
      if 3 ≤ count then
        if count ≤ 5 then some (List.replicate (count - 3) '\x27', cs.drop (count - 1)) else none
      else match readRawLines? (cs.drop (count - 1)) with
        | none => none
        | some (string, rest) => some (List.replicate count '\x27' ++ string, rest)
    else match readRawLines? cs with
      | none => none
      | some (string, rest) => some (c :: string, rest)
termination_by cs => cs.length
decreasing_by
  all_goals (simp only [List.length_drop, List.length_cons]; omega)

/-- Reads a string whose first character, a quote, has been read. -/
def readString? (quote : Char) (cs : List Char) : Option (String × List Char) :=
  match cs with
  | first :: second :: rest =>
    if first = quote && second = quote then do
      let (string, rest) ← if quote = '"' then readBasicLines? false (dropFirstNewline rest)
        else readRawLines? (dropFirstNewline rest)
      some (String.ofList string, rest)
    else readLine
  | _ => readLine
where
  /-- Reads a string on one line. -/
  readLine : Option (String × List Char) := do
    let (string, rest) ← if quote = '"' then readBasic? cs else readRaw? cs
    some (String.ofList string, rest)

end Toml
end RegisterAllocation
