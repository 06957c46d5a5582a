/-!
# Paths

Paths are names divided by slashes. A clean path is the shortest one that means the same without
looking at files.
-/

namespace RegisterAllocation
namespace Path

/-- The names of a path. -/
def names (path : String) : List String :=
  (path.toList.foldr (fun c parts =>
    match parts with
    | [] => []
    | part :: rest => if c = '/' then [] :: part :: rest else (c :: part) :: rest) [[]]).map
    String.ofList

/-- Whether a path starts at the top of the file system. -/
def isRooted (path : String) : Bool := path.toList.head? = some '/'

/-- A path without the slashes at its end; the top of the file system is kept. -/
def dropSlashes (path : String) : String :=
  match path.toList.reverse.dropWhile (· = '/') with
  | [] => path
  | cs => String.ofList cs.reverse

/-- Adds a name to the names of a clean path, which are given last one first. -/
def push (rooted : Bool) (done : List String) (name : String) : List String :=
  if name = "" ∨ name = "." then done
  else if name = ".." then
    match done with
    | [] => if rooted then [] else [".."]
    | last :: rest => if last = ".." then ".." :: done else rest
  else name :: done

/-- The clean form of a path. -/
def clean (path : String) : String :=
  let rooted := isRooted path
  let done := (names path).foldl (push rooted) []
  let joined := "/".intercalate done.reverse
  if rooted then "/" ++ joined else if done.isEmpty then "." else joined

/-- The path of a name in a directory. -/
def join (directory name : String) : String :=
  if directory = "" then clean name else clean (directory ++ "/" ++ name)

def base (path : String) : String := (names path).getLast?.getD ""

/-- Splits a path behind its last slash. -/
def split (path : String) : String × String :=
  let cs := path.toList
  let file := (cs.reverse.takeWhile (· ≠ '/')).reverse
  (String.ofList (cs.take (cs.length - file.length)), String.ofList file)

/-- A name without its extension: without its last dot and all that follows. -/
def stem (name : String) : String :=
  match name.toList.reverse.dropWhile (· ≠ '.') with
  | _ :: rest => String.ofList rest.reverse
  | [] => name

end Path
end RegisterAllocation
