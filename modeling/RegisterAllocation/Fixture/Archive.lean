import RegisterAllocation.Text.Blank
import RegisterAllocation.Text.Utf8

/-!
# Archives

An archive is a text file that holds named sections. A section starts with a marker line, two
hyphens and a blank before its name and a blank and two hyphens after it, and goes on to the next
marker line. What stands before the first marker is a comment.
-/

namespace RegisterAllocation
namespace Archive

/-- A named section of an archive. -/
structure Section where
  name : String
  data : List UInt8
deriving DecidableEq, Repr

/-- The byte that ends a line. -/
def lineFeed : UInt8 := 10

/-- The lines of a file; the last one may lack its end. -/
def lines : List UInt8 → List (List UInt8)
  | [] => []
  | byte :: bytes =>
    if byte = lineFeed then [] :: lines bytes
    else match lines bytes with
      | [] => [[byte]]
      | line :: rest => (byte :: line) :: rest

def markerStart : List UInt8 := Utf8.bytes "-- "

def markerEnd : List UInt8 := Utf8.bytes " --"

/-- Whether a character is white space; stray bytes are not. -/
def isBlankSlot : Option Char → Bool
  | some c => isBlank c
  | none => false

/-- Characters without white space at both ends. -/
def trim (cs : List (Option Char)) : List (Option Char) :=
  ((cs.dropWhile isBlankSlot).reverse.dropWhile isBlankSlot).reverse

/-- The name in a marker line; other lines have none. -/
def markerName? (line : List UInt8) : Option String :=
  let overhead := markerStart.length + markerEnd.length
  if markerStart.isPrefixOf line && markerEnd.isSuffixOf line && overhead ≤ line.length then
    let inner := (line.drop markerStart.length).take (line.length - overhead)
    let name := trim (Utf8.split inner)
    if name.isEmpty then none
    else some (String.ofList (name.map fun c => c.getD Utf8.replacement))
  else none

/-- The sections of the lines of an archive. The lines before the first marker come apart. -/
def split : List (List UInt8) → List UInt8 × List Section
  | [] => ([], [])
  | line :: rest =>
    let (before, sections) := split rest
    match markerName? line with
    | some name => ([], ⟨name, before⟩ :: sections)
    | none => (line ++ lineFeed :: before, sections)

def sections (bytes : List UInt8) : List Section := (split (lines bytes)).2

end Archive
end RegisterAllocation
