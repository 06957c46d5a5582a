import RegisterAllocation.Files.Basic
import RegisterAllocation.Files.Path

/-!
# Files in memory

A tree of directories and files. Paths are relative to the top of the tree. Outside of it there are
only the directories that it is in.
-/

namespace RegisterAllocation

/-- A file or a directory. -/
inductive FileTree where
  | file (data : List UInt8)
  | directory (entries : List (String × FileTree))
deriving Repr

namespace FileTree

def empty : FileTree := .directory []

/-- The file or directory at the end of a list of names. -/
def find? (tree : FileTree) : List String → Option FileTree
  | [] => some tree
  | name :: path =>
    match tree with
    | .file _ => none
    | .directory entries => do (← entries.lookup name).find? path

/-- The entries of a directory with one replaced or added. -/
def setEntry (name : String) (tree : FileTree) : List (String × FileTree) → List (String × FileTree)
  | [] => [(name, tree)]
  | (other, old) :: rest =>
    if other = name then (name, tree) :: rest else (other, old) :: setEntry name tree rest

/-- The tree with a file at the end of a list of names; missing directories are made. -/
def insert (data : List UInt8) (tree : FileTree) : List String → FileTree
  | [] => .file data
  | name :: path =>
    let entries := match tree with
      | .directory entries => entries
      | .file _ => []
    .directory (setEntry name (insert data ((entries.lookup name).getD empty) path) entries)

/-- The largest number of bytes in a name. -/
def maxNameSize : Nat := 255

/-- Whether a name stands for the directory it is in, or for the one around that. -/
def isRelative (name : String) : Bool := name = "" || name = "." || name = ".."

/-- The error for a path that goes on outside of the tree. -/
def outside (path : List String) : FileError :=
  if path.all isRelative then .isDirectory else .notFound

/-- The names on the way to the end of a path, which go through directories that exist. -/
def walk (tree : FileTree) (done : List String) : List String → Except FileError (List String)
  | [] => .ok done
  | name :: rest =>
    match tree.find? done with
    | none => .error .notFound
    | some (.file _) => .error .notADirectory
    | some (.directory _) =>
      if name = "" ∨ name = "." then tree.walk done rest
      else if name = ".." then
        if done.isEmpty then .error (outside rest) else tree.walk done.dropLast rest
      else if maxNameSize < name.utf8ByteSize then .error .nameTooLong
      else tree.walk (done ++ [name]) rest

/-- The names on the way to the end of a path. -/
def resolve (tree : FileTree) (path : String) : Except FileError (List String) :=
  if path = "" then .error .notFound
  else if Path.isRooted path then .error (outside (Path.names path))
  else tree.walk [] (Path.names path)

def list (tree : FileTree) (path : String) : Option (List String) :=
  match (tree.resolve path).map tree.find? with
  | .ok (some (.directory entries)) => some (entries.map (·.1))
  | _ => none

/-- The contents of a file. -/
def read (tree : FileTree) (path : String) : Except FileError (List UInt8) := do
  match tree.find? (← tree.resolve path) with
  | some (.file data) => .ok data
  | some (.directory _) => .error .isDirectory
  | none => .error .notFound

/-- Replaces the contents of a file, or makes a new one in a directory that exists. What ends in a
slash can only be a directory. -/
def write (tree : FileTree) (path : String) (data : List UInt8) : Except FileError FileTree := do
  let names ← tree.resolve (Path.dropSlashes path)
  if path ≠ Path.dropSlashes path then .error .isDirectory
  match tree.find? names with
  | some (.directory _) => .error .isDirectory
  | some (.file _) => .ok (insert data tree names)
  | none =>
    match tree.find? names.dropLast with
    | some (.directory _) => .ok (insert data tree names)
    | some (.file _) => .error .notADirectory
    | none => .error .notFound

/-- Access to the files of a tree. -/
def files : Files (StateM FileTree) where
  list path := do return (← get).list path
  read path := do return (← get).read path
  write path data := do
    match (← get).write path data with
    | .ok tree =>
      set tree
      return .ok ()
    | .error error => return .error error

end FileTree
end RegisterAllocation
