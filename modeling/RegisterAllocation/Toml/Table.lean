import RegisterAllocation.Toml.Reader

/-!
# Tables of settings files

The statements of a file build tables. A table that is only mentioned on the way to another one
exists implicitly, and may be defined once later. A key is never defined twice.

Tables are numbered in the order in which they come up. A table that is written as a value is built
twice: in place, under its key, and by itself, as the value. Mostly the value is then dropped, since
the table in place is only confirmed; but a table in place that counts as an array is replaced by
the value, which may belong to another value as well. That is why tables refer to each other by
their numbers.

The keys are recorded in the order in which they are met, so that unknown ones can be reported.
-/

namespace RegisterAllocation
namespace Toml

/-- The number of a table. -/
abbrev TableId := Nat

/-- What a name in a table stands for. -/
inductive Node where
  /-- A value that is no table; integers are known. -/
  | leaf (n : Option Int64)
  | table (id : TableId)
  /-- An array of tables, the last one of which is current. -/
  | tables (ids : List TableId)
deriving Repr

/-- The names of a table, in the order of their definition. -/
abbrev Entries := List (String × Node)

/-- The table with a name set to a node. -/
def Entries.set (entries : Entries) (name : String) (node : Node) : Entries :=
  match entries with
  | [] => [(name, node)]
  | (other, old) :: rest =>
    if other = name then (name, node) :: rest else (other, old) :: Entries.set rest name node

/-- The current table of a node. -/
def Node.current? : Node → Option TableId
  | .leaf _ => none
  | .table id => some id
  | .tables ids => ids.getLast?

/-- Tables under construction. -/
structure Builder where
  /-- The tables by number; the first one is the top table. -/
  tables : List Entries := [[]]
  /-- The tables that exist implicitly. -/
  implicit : List Key := []
  /-- Tells for a key whether its latest value is an array; the latest entry counts. -/
  arrays : List (Key × Bool) := []
  /-- The path of the table that keys are relative to. -/
  context : Key := []
  /-- The keys met so far, last one first. -/
  keys : List Key := []
deriving Repr

namespace Builder

def top : TableId := 0

def entries (b : Builder) (id : TableId) : Entries := b.tables.getD id []

/-- What a name in a table stands for. -/
def find? (b : Builder) (id : TableId) (name : String) : Option Node := (b.entries id).lookup name

def set (b : Builder) (id : TableId) (name : String) (node : Node) : Builder :=
  { b with tables := b.tables.modify id (Entries.set · name node) }

def newTable (b : Builder) : TableId × Builder :=
  (b.tables.length, { b with tables := b.tables ++ [[]] })

def at? (b : Builder) (path : Key) : Option TableId :=
  path.foldlM (fun id name => do (← b.find? id name).current?) top

/-- Marks a table as implicit. -/
def mark (b : Builder) (key : Key) : Builder := { b with implicit := key :: b.implicit }

/-- Takes the mark of an implicit table away. -/
def unmark (b : Builder) (key : Key) : Builder :=
  { b with implicit := b.implicit.filter (· ≠ key) }

/-- Records a key. -/
def record (b : Builder) (key : Key) : Builder := { b with keys := key :: b.keys }

/-- Records whether the value of a name is an array. The empty name stands for the table itself, if
it is not the top one. -/
def recordKind (b : Builder) (name : String) (isArray : Bool) : Builder :=
  let key :=
    if name ≠ "" then b.context ++ [name] else if b.context = [] then [""] else b.context
  { b with arrays := (key, isArray) :: b.arrays }

/-- Whether the latest value of a key is an array. -/
def isArray (b : Builder) (key : Key) : Bool := (b.arrays.lookup key).getD false

/-- Defines a name in the context. An implicit table is confirmed and keeps its contents, but what
counts as an array is replaced. -/
def define? (b : Builder) (name : String) (node : Node) : Option Builder := do
  let key := b.context ++ [name]
  let id ← b.at? b.context
  if (b.find? id name).isNone then some (b.set id name node)
  else if !b.implicit.contains key then none
  else if b.isArray key then some ((b.unmark key).set id name node)
  else some (b.unmark key)

/-- Makes sure that the tables on a path exist, from the table `id` at `above` on, and makes the
last one the context. -/
def openPath? (b : Builder) (id : TableId) (above : Key) : Key → Option Builder
  | [] => some { b with context := above }
  | name :: path => do
    match b.find? id name with
    | none =>
      let (inner, b) := b.newTable
      openPath? ((b.mark (above ++ [name])).set id name (.table inner)) inner (above ++ [name]) path
    | some node => openPath? b (← node.current?) (above ++ [name]) path

/-- Defines a table and makes it the context. -/
def openTable? (b : Builder) (key : Key) : Option Builder := do
  let name ← key.getLast?
  let (id, b) := (← b.openPath? top [] key.dropLast).newTable
  let b ← b.define? name (.table id)
  return { b with context := key }

/-- Adds an element to an array of tables and makes it the context. -/
def openElement? (b : Builder) (key : Key) : Option Builder := do
  let name ← key.getLast?
  let (element, b) := (← b.openPath? top [] key.dropLast).newTable
  let id ← b.at? b.context
  let elements ← match b.find? id name with
    | none => some []
    | some (.tables ids) => some ids
    | some _ => none
  return { b.set id name (.tables (elements ++ [element])) with context := key }

/-- Opens the tables on the way to a dotted key. -/
def openDotted? (b : Builder) : Key → Option Builder
  | [] => some b
  | name :: path => do
    let key := b.context ++ [name]
    ((← (b.mark key).openTable? key).openDotted? path)

end Builder

def Expr.isArray : Expr → Bool
  | .array _ => true
  | _ => false

namespace Builder

/-- Sets a key in a table that is a value. What is on the way has to be tables. -/
def setIn? (b : Builder) (id : TableId) (name : String) (node : Node) : Key → Option Builder
  | [] => some (b.set id name node)
  | step :: path =>
    match b.find? id step with
    | none =>
      let (inner, b) := b.newTable
      setIn? (b.set id step (.table inner)) inner name node path
    | some (.table inner) => setIn? b inner name node path
    | some _ => none

mutual

/-- Builds the value of a name, and the tables within it in place. -/
def addValue? (b : Builder) (name : String) (inArray : Bool) (value : Expr) :
    Option (Node × Builder) :=
  match value with
  | .integer n => some (.leaf (some n), b)
  | .array items => do return (.leaf none, ← addItems? (b.recordKind name true) name items)
  | .table fields => do
    let key := b.context ++ [name]
    let opened ← if inArray then (b.mark key).openElement? key else (b.mark key).openTable? key
    let (id, opened) := opened.newTable
    let filled ← addFields? opened key (some id) fields
    some (.table id, { filled with context := b.context })
  | _ => some (.leaf none, b)

/-- Builds the tables within the items of an array. -/
def addItems? (b : Builder) (name : String) (items : List Expr) : Option Builder :=
  match items with
  | [] => some b
  | item :: items => do
    let (_, b) ← addValue? b name true item
    addItems? b name items

/-- Adds fields to the table at a path, and to the value that it is. -/
def addFields? (b : Builder) (path : Key) (value? : Option TableId) (fields : List (Key × Expr)) :
    Option Builder :=
  match fields with
  | [] => some b
  | (key, value) :: fields => do
    let name ← key.getLast?
    let opened ← b.openDotted? key.dropLast
    let (node, b) ← addValue? (opened.record (opened.context ++ [name])) name false value
    let b := (← b.define? name node).recordKind name value.isArray
    let b ← match value? with
      | some id => b.setIn? id name node key.dropLast
      | none => some b
    addFields? { b with context := path } path value? fields

end

/-- Carries out a statement. -/
def step? (b : Builder) : Statement → Option Builder
  | .table key => do return ((← b.openTable? key).recordKind "" false).record key
  | .element key => do return ((← b.openElement? key).recordKind "" false).record key
  | .assign key value => b.addFields? b.context none [(key, value)]

end Builder

/-- What a file says: the names of the top table, and all keys in the order of the file. -/
structure Document where
  entries : Entries
  keys : List Key
deriving Repr

def Document.read? (bytes : List UInt8) : Option Document := do
  let statements ← readFile? bytes
  let b ← statements.foldlM (·.step? ·) ({} : Builder)
  return ⟨b.entries Builder.top, b.keys.reverse⟩

end Toml
end RegisterAllocation
