import RegisterAllocation.Container.Sorting
import RegisterAllocation.Files.Basic
import RegisterAllocation.Files.Path
import RegisterAllocation.Files.Pattern

/-!
# Finding files

The paths of the files whose names fit a pattern. Directories in the pattern may be patterns
themselves.
-/

namespace RegisterAllocation
namespace Files

variable {m : Type → Type} [Monad m]

def sorted (texts : List String) : List String := Sorting.sort (fun x y => decide (x < y)) texts

/-- The paths of the names in a directory that fit a pattern; none if a malformed segment is met. -/
def globIn? (files : Files m) (directory : String) (pattern : Pattern) :
    m (Option (List String)) := do
  let names := sorted ((← files.list directory).getD [])
  return (names.filterM fun name => pattern.covers? (Utf8.bytes name)).map
    (·.map (Path.join directory))

/-- The paths of the names in directories that fit a pattern. -/
def globInAll? (files : Files m) (pattern : Pattern) : List String → m (Option (List String))
  | [] => return some []
  | directory :: directories => do
    match ← files.globIn? directory pattern with
    | none => return none
    | some found => return (← files.globInAll? pattern directories).map (found ++ ·)

/-- A directory as it is written in front of a name, without the slash at its end. -/
def dropSlash (directory : String) : String :=
  if directory = "" then "." else if directory = "/" then "/"
  else String.ofList directory.toList.dropLast

/-- The paths that fit a pattern; none if a malformed segment is met. -/
def expand? (files : Files m) : (fuel : Nat) → String → m (Option (List String))
  | 0, _ => return none
  | fuel + 1, pattern => do
    let (front, name) := Path.split pattern
    let directory := dropSlash front
    if ((Pattern.ofString pattern).covers? []).isNone then return none
    else if directory.toList.any Pattern.isMeta then
      match ← files.expand? fuel directory with
      | none => return none
      | some directories => files.globInAll? (Pattern.ofString name) directories
    else files.globIn? directory (Pattern.ofString name)

/-- The paths that fit a pattern, in ascending order; none if a malformed segment is met.
Directories within the pattern are looked up one after another, each shorter than the one before. -/
def glob? (files : Files m) (pattern : String) : m (Option (List String)) := do
  return (← files.expand? (pattern.length + 1) pattern).map sorted

end Files
end RegisterAllocation
