import RegisterAllocation.Text.Utf8

/-!
# Patterns for names

A star stands for any bytes, a question mark for one character, brackets for one of a set, and a
backslash takes the meaning of the next character away. None of them but a set stands for a slash.

Stars divide a pattern into segments. A segment is looked for at the first place where it fits, and
its place is not changed later. Places are between bytes: what is looked for may start within a
character, whose bytes are then stray ones. A malformed segment is only noticed when it is looked
for.
-/

namespace RegisterAllocation

/-- A part of a pattern that stands for one character. -/
inductive PatternPart where
  | any
  | char (c : Char)
  | set (negated : Bool) (ranges : List (Char × Char))
deriving DecidableEq, Repr

/-- The parts between two stars. -/
structure Segment where
  /-- Whether a star stands in front of the segment. -/
  afterStar : Bool
  /-- The parts; none if they are malformed. -/
  parts? : Option (List PatternPart)
deriving DecidableEq, Repr

abbrev Pattern := List Segment

/-! ## Reading -/

namespace PatternPart

/-- Reads a character of a set; something has to follow it. -/
def setChar? : List Char → Option (Char × List Char)
  | '\\' :: c :: next :: cs => some (c, next :: cs)
  | '\\' :: _ => none
  | c :: next :: cs => if c = '-' ∨ c = ']' then none else some (c, next :: cs)
  | _ => none

/-- Reads a range of a set: one character, or two with a hyphen between them. -/
def setRange? (cs : List Char) : Option ((Char × Char) × List Char) := do
  let (low, rest) ← setChar? cs
  match rest with
  | '-' :: rest => do
    let (high, rest) ← setChar? rest
    some ((low, high), rest)
  | rest => some ((low, low), rest)

/-- Reads the ranges of a set, at least one, and the bracket that ends it. -/
def setRanges? : (fuel : Nat) → List Char → Option (List (Char × Char) × List Char)
  | 0, _ => none
  | fuel + 1, cs => do
    let (range, rest) ← setRange? cs
    match rest with
    | ']' :: rest => some ([range], rest)
    | rest => do
      let (ranges, rest) ← setRanges? fuel rest
      some (range :: ranges, rest)

/-- Reads a part. -/
def read? : List Char → Option (PatternPart × List Char)
  | [] => none
  | '?' :: cs => some (.any, cs)
  | '[' :: cs => do
    let (negated, cs) := match cs with
      | '^' :: cs => (true, cs)
      | cs => (false, cs)
    let (ranges, rest) ← setRanges? cs.length cs
    some (.set negated ranges, rest)
  | '\\' :: cs =>
    match cs with
    | c :: cs => some (.char c, cs)
    | [] => none
  | c :: cs => some (.char c, cs)

/-- Reads parts. -/
def readAll? : (fuel : Nat) → List Char → Option (List PatternPart)
  | _, [] => some []
  | 0, _ :: _ => none
  | fuel + 1, c :: cs => do
    let (part, rest) ← read? (c :: cs)
    return part :: (← readAll? fuel rest)

end PatternPart

/-- The segment with the text `cs`. -/
def Segment.ofChars (afterStar : Bool) (cs : List Char) : Segment :=
  ⟨afterStar, PatternPart.readAll? cs.length cs⟩

namespace Pattern

/-- Whether a character has a meaning in patterns. -/
def isMeta (c : Char) : Bool := c = '*' || c = '?' || c = '[' || c = '\\'

/-- Cuts a text at the stars that are neither in brackets nor behind a backslash. `done` is the text
of the current segment, last character first. -/
def cut (afterStar inSet : Bool) (done : List Char) : List Char → Pattern
  | [] => if afterStar ∨ done ≠ [] then [.ofChars afterStar done.reverse] else []
  | '\\' :: c :: cs => cut afterStar inSet (c :: '\\' :: done) cs
  | c :: cs =>
    if c = '*' ∧ inSet = false then
      if done = [] then cut true false [] cs
      else .ofChars afterStar done.reverse :: cut true false [] cs
    else cut afterStar (c = '[' || (inSet && c ≠ ']')) (c :: done) cs

def ofString (text : String) : Pattern := cut false false [] text.toList

end Pattern

/-! ## Matching -/

/-- The byte that divides the names of a path. -/
def slash : UInt8 := 0x2f

namespace PatternPart

/-- The bytes behind those that a part stands for. -/
def rest? (part : PatternPart) (bytes : List UInt8) : Option (List UInt8) :=
  match part, bytes with
  | .char c, bytes =>
    let own := Utf8.bytes (String.singleton c)
    if own.isPrefixOf bytes then some (bytes.drop own.length) else none
  | _, [] => none
  | .any, byte :: bytes => if byte = slash then none else some (Utf8.next byte bytes).2
  | .set negated ranges, byte :: bytes =>
    let (c, rest) := Utf8.next byte bytes
    if (ranges.any fun (low, high) => low ≤ c && c ≤ high) ≠ negated then some rest else none

end PatternPart

namespace Pattern

/-- The bytes behind the first place where parts fit. After a star that place may be anywhere before
the first slash, else it is the start. If they are the last parts nothing may be left. -/
def search (afterStar last : Bool) (parts : List PatternPart) (bytes : List UInt8) :
    Option (List UInt8) :=
  let here := (parts.foldlM (fun bytes (part : PatternPart) => part.rest? bytes) bytes).filter
    fun rest => rest.isEmpty || !last
  match here, bytes with
  | some rest, _ => some rest
  | none, [] => none
  | none, byte :: bytes =>
    if afterStar ∧ byte ≠ slash then search afterStar last parts bytes else none

/-- Whether a pattern stands for a name; none if a malformed segment is met. -/
def covers? : Pattern → List UInt8 → Option Bool
  | [], bytes => some bytes.isEmpty
  | segment :: segments, bytes => do
    let parts ← segment.parts?
    if segment.afterStar ∧ parts = [] then some !bytes.contains slash
    else
      match search segment.afterStar segments.isEmpty parts bytes with
      | some rest => covers? segments rest
      | none => some false

end Pattern
end RegisterAllocation
