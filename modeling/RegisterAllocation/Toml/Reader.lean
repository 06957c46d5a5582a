import RegisterAllocation.Text.Letter
import RegisterAllocation.Text.Utf8
import RegisterAllocation.Toml.Date
import RegisterAllocation.Toml.Key
import RegisterAllocation.Toml.Number
import RegisterAllocation.Toml.Quoted

/-!
# Reading settings files

A settings file is a sequence of statements: table headers, headers of elements of table arrays, and
keys with values. `Document.read?` reads the statements of a file; what they mean together is the
matter of `Toml.Table`.
-/

namespace RegisterAllocation
namespace Toml

/-- A value as it is written. -/
inductive Expr where
  | integer (n : Int64)
  | float
  | boolean (value : Bool)
  | string (value : String)
  | date
  | array (items : List Expr)
  /-- A table within a value. -/
  | table (fields : List (Key × Expr))
deriving Repr

/-- A statement. -/
inductive Statement where
  /-- The header of a table. -/
  | table (key : Key)
  /-- The header of a new element of an array of tables. -/
  | element (key : Key)
  | assign (key : Key) (value : Expr)
deriving Repr

/-! ## Characters -/

/-- Whether a character may not stand in a file by itself. -/
def isControl (c : Char) : Bool :=
  (c.toNat < 0x20 && c ≠ '\t' && c ≠ '\n' && c ≠ '\r') || c.toNat = 0x7f

/-- Whether all characters of a text are allowed. A carriage return has to be followed by a line
feed. -/
def charsAllowed : List Char → Bool
  | [] => true
  | '\r' :: cs => cs.head? = some '\n' && charsAllowed cs
  | c :: cs => !isControl c && charsAllowed cs

/-- The bytes of a file without a byte order mark. -/
def dropByteOrderMark : List UInt8 → List UInt8
  | 0xff :: 0xfe :: bytes => bytes
  | 0xfe :: 0xff :: bytes => bytes
  | 0xef :: 0xbb :: 0xbf :: bytes => bytes
  | bytes => bytes

/-- The text without blanks at its start. -/
def skipBlanks (cs : List Char) : List Char := cs.dropWhile isBlankChar

/-- The text without blanks, newlines and comments at its start. -/
def skipFiller (inComment : Bool) : List Char → List Char
  | [] => []
  | c :: cs =>
    if isNewline c then skipFiller false cs
    else if inComment then skipFiller true cs
    else if isBlankChar c then skipFiller false cs
    else if c = '#' then skipFiller true cs
    else c :: cs

/-! ## Keys -/

/-- Reads a name. -/
def readName? : List Char → Option (String × List Char)
  | [] => none
  | c :: cs =>
    if c = '"' then do
      let (name, rest) ← readBasic? cs
      some (String.ofList name, rest)
    else if c = '\x27' then do
      let (name, rest) ← readRaw? cs
      some (String.ofList name, rest)
    else
      let name := (c :: cs).takeWhile isBare
      if name.isEmpty then none else some (String.ofList name, (c :: cs).dropWhile isBare)

/-- Reads the names of a key and the mark `stop` behind it. -/
def readKey? (stop : Char) : (fuel : Nat) → List Char → Option (Key × List Char)
  | 0, _ => none
  | fuel + 1, cs => do
    let (name, rest) ← readName? (skipBlanks cs)
    match skipBlanks rest with
    | [] => none
    | c :: rest =>
      if c = stop then some ([name], rest)
      else if c = '.' then do
        let (key, rest) ← readKey? stop fuel rest
        some (name :: key, rest)
      else none

/-! ## Scalars -/

/-- Whether a character can stand in a floating-point number behind its first digits. -/
def isFloatChar (c : Char) : Bool := c.isDigit || "_.-+eE".toList.contains c

/-- Whether a character can stand in a date or a time. -/
def isDateChar (c : Char) : Bool := c.isDigit || "-:Tt .Zz+".toList.contains c

/-- Reads a decimal number. -/
def readDecimal? (cs : List Char) : Option (Expr × List Char) :=
  let (sign, unsigned) := match cs with
    | '+' :: cs => (['+'], cs)
    | '-' :: cs => (['-'], cs)
    | cs => ([], cs)
  let digits := unsigned.takeWhile fun c => c.isDigit || c = '_'
  let rest := unsigned.dropWhile fun c => c.isDigit || c = '_'
  if (rest.head?.map dividesFloat).getD false then
    let text := sign ++ digits ++ rest.takeWhile isFloatChar
    if isFloat text then some (.float, rest.dropWhile isFloatChar) else none
  else do return (.integer (← integer? (sign ++ digits)), rest)

/-- Reads a number with a base mark, which stands behind a zero. -/
def readMarked? (base : Nat) (mark : Char) (cs : List Char) : Option (Expr × List Char) := do
  let isDigit := fun c => ((Hexadecimal.digitValue? c).map (decide <| · < base)).getD false
  if !(cs.head?.map isDigit).getD false then none
  let digits := cs.takeWhile fun c => isDigit c || c = '_'
  return (.integer (← integer? ('0' :: mark :: digits)), cs.drop digits.length)

/-- Reads a date or a time; blanks behind it are no part of it. -/
def readDateTime? (cs : List Char) : Option (Expr × List Char) :=
  let text := (cs.takeWhile isDateChar).reverse.dropWhile isBlankChar |>.reverse
  if isDateTime text then some (.date, cs.dropWhile isDateChar) else none

/-- Reads a number or a date, which starts with a digit. -/
def readNumberOrDate? (cs : List Char) : Option (Expr × List Char) :=
  match cs with
  | '0' :: mark :: rest =>
    match baseOfMark? mark with
    | some base => readMarked? base mark rest
    | none => readUnmarked
  | _ => readUnmarked
where
  /-- Reads a number without a base mark, or a date. -/
  readUnmarked : Option (Expr × List Char) :=
    match cs.dropWhile Char.isDigit with
    | '-' :: _ | ':' :: _ => readDateTime? cs
    | _ => readDecimal? cs

/-- Reads a word behind an optional sign: the special floating-point numbers. -/
def readSpecialFloat? (cs : List Char) : Option (Expr × List Char) :=
  match cs with
  | 'i' :: 'n' :: 'f' :: rest => some (.float, rest)
  | 'n' :: 'a' :: 'n' :: rest => some (.float, rest)
  | _ => none

/-- Reads a truth value. -/
def readBoolean? (cs : List Char) : Option (Expr × List Char) :=
  let word := cs.takeWhile isLetter
  let rest := cs.dropWhile isLetter
  if word = "true".toList then some (.boolean true, rest)
  else if word = "false".toList then some (.boolean false, rest)
  else none

/-- Reads a value that is neither an array nor a table. -/
def readScalar? (cs : List Char) : Option (Expr × List Char) :=
  match cs with
  | [] => none
  | c :: rest =>
    if c.isDigit then readNumberOrDate? cs
    else if c = '"' || c = '\x27' then do
      let (string, rest) ← readString? c rest
      some (.string string, rest)
    else if c = '+' || c = '-' then
      match rest with
      | '0' :: mark :: _ =>
        if (baseOfMark? mark).isSome then none else readDecimal? cs
      | first :: _ => if first.isDigit then readDecimal? cs else readSpecialFloat? rest
      | [] => none
    else if c = 'i' || c = 'n' then readSpecialFloat? cs
    else readBoolean? cs

/-! ## Values -/

mutual

/-- Reads a value. -/
def readValue? (fuel : Nat) (cs : List Char) : Option (Expr × List Char) :=
  match fuel with
  | 0 => none
  | fuel + 1 =>
    match cs with
    | '[' :: rest => do
      let (items, rest) ← readItems? fuel rest
      some (.array items, rest)
    | '\x7b' :: rest => do
      let (fields, rest) ← readFields? fuel rest
      some (.table fields, rest)
    | _ => readScalar? cs

/-- Reads the items of an array from a place where an item or the end may stand. -/
def readItems? (fuel : Nat) (cs : List Char) : Option (List Expr × List Char) :=
  match fuel with
  | 0 => none
  | fuel + 1 =>
    match skipFiller false cs with
    | ']' :: rest => some ([], rest)
    | start => do
      let (item, rest) ← readValue? fuel start
      match skipFiller false rest with
      | ']' :: rest => some ([item], rest)
      | ',' :: rest => do
        let (items, rest) ← readItems? fuel rest
        some (item :: items, rest)
      | _ => none

/-- Reads the fields of a table from a place where a field or the end may stand. -/
def readFields? (fuel : Nat) (cs : List Char) : Option (List (Key × Expr) × List Char) :=
  match fuel with
  | 0 => none
  | fuel + 1 =>
    match skipFiller false cs with
    | '\x7d' :: rest => some ([], rest)
    | start => do
      let (key, rest) ← readKey? '=' start.length start
      let (value, rest) ← readValue? fuel (skipBlanks rest)
      match skipFiller false rest with
      | '\x7d' :: rest => some ([(key, value)], rest)
      | ',' :: rest => do
        let (fields, rest) ← readFields? fuel rest
        some ((key, value) :: fields, rest)
      | _ => none

end

/-! ## Statements -/

/-- The text behind the end of a line, before which only blanks and a comment may stand. -/
def endLine? (cs : List Char) : Option (List Char) :=
  match skipBlanks cs with
  | [] => some []
  | c :: rest => if c = '#' || isNewline c then some (c :: rest) else none

/-- Reads a statement. -/
def readStatement? (cs : List Char) : Option (Statement × List Char) :=
  match cs with
  | '[' :: '[' :: rest => do
    let (key, rest) ← readKey? ']' rest.length rest
    some (.element key, ← endLine? (← readMark? ']' rest))
  | '[' :: rest => do
    let (key, rest) ← readKey? ']' rest.length rest
    some (.table key, ← endLine? rest)
  | _ => do
    let (key, rest) ← readKey? '=' cs.length cs
    let (value, rest) ← readValue? cs.length (skipBlanks rest)
    some (.assign key value, ← endLine? rest)

/-- Reads statements up to the end. Every statement takes at least one character. -/
def readStatements? : (fuel : Nat) → List Char → Option (List Statement)
  | 0, _ => none
  | fuel + 1, cs =>
    match skipFiller false cs with
    | [] => some []
    | start => do
      let (statement, rest) ← readStatement? start
      let statements ← readStatements? fuel rest
      some (statement :: statements)

def readFile? (bytes : List UInt8) : Option (List Statement) := do
  let text ← Utf8.strict? (dropByteOrderMark bytes)
  if charsAllowed text then readStatements? (text.length + 1) text else none

end Toml
end RegisterAllocation
