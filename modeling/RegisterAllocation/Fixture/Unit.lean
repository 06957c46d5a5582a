import RegisterAllocation.Fixture.Instruction

/-!
# Written units

A unit is written as a list of the word `unit`, its name and clauses, each of which is given at most
once: arguments, instructions, fixed registers, live intervals and copies.

All definitions are entered first, so that an instruction can name a value that is defined further
down. Then the clauses are read one after another, in an order that does not depend on how they are
written.
-/

namespace RegisterAllocation

/-- The clauses of a written unit. -/
structure Clauses where
  arguments : Option SExpr := none
  instructions : Option SExpr := none
  fixed : Option SExpr := none
  intervals : Option SExpr := none
  copies : Option SExpr := none
deriving Repr

namespace Clauses

/-- The entries of a clause; a clause that is missing has none. -/
def entries (clause : Option SExpr) : List SExpr :=
  match clause with
  | some expr => expr.items.tail
  | none => []

/-- Adds a clause. -/
def add (clauses : Clauses) (clause : SExpr) : Except FormFailure Clauses :=
  let once (old : Option SExpr) (added : Clauses) : Except FormFailure Clauses :=
    if old.isSome then clause.refuse (.duplicateClause clause.head) else .ok added
  match clause.head with
  | "arguments" => once clauses.arguments { clauses with arguments := some clause }
  | "instructions" => once clauses.instructions { clauses with instructions := some clause }
  | "fixed" => once clauses.fixed { clauses with fixed := some clause }
  | "intervals" => once clauses.intervals { clauses with intervals := some clause }
  | "copies" => once clauses.copies { clauses with copies := some clause }
  | _ => clause.refuse (.unknownClause clause.text)

def ofList (exprs : List SExpr) : Except FormFailure Clauses := exprs.foldlM add {}

end Clauses

namespace Draft

/-! ## Definitions -/

def defineArgument (draft : Draft) (entry : SExpr) : Except FormFailure Draft := do
  if draft.isBound entry.head then entry.refuse (.argumentTwice entry.head)
  return (← draft.define entry).2

/-- Where the output of an instruction is written. -/
def outputOf? : List SExpr → Option SExpr
  | _ :: .symbol name _ :: third :: rest =>
    if "invoke".toList.isPrefixOf name.toList then some (rest.headD third) else some third
  | _ :: _ :: third :: _ => some third
  | _ => none

/-- Enters the definition of the output of an instruction. -/
def defineOutput (draft : Draft) (entry : SExpr) : Except FormFailure Draft :=
  match outputOf? entry.items with
  | none => entry.refuse (.badInstruction entry.text)
  | some (.list (first :: rest) line) => do
    let out : SExpr := .list (first :: rest) line
    if draft.isBound out.head then entry.refuse (.definedTwice out.head)
    return (← draft.define out).2
  | some _ => .ok draft

/-- Enters the definition of the target of a copy, if there is one. -/
def defineTarget (draft : Draft) (entry : SExpr) : Except FormFailure Draft :=
  match entry with
  | .list [_, _, .list items line] _ => do return (← draft.define (.list items line)).2
  | _ => .ok draft

/-- Enters the definition in an interval, if there is one. -/
def defineInterval (draft : Draft) (entry : SExpr) : Except FormFailure Draft :=
  match entry with
  | .list [.symbol name nameLine, type, _, _] line => do
    return (← draft.define (.list [.symbol name nameLine, type] line)).2
  | _ => .ok draft

/-- Enters all definitions. -/
def defineAll (draft : Draft) (clauses : Clauses) : Except FormFailure Draft := do
  let draft ← (Clauses.entries clauses.arguments).foldlM defineArgument draft
  let draft ← (Clauses.entries clauses.instructions).foldlM defineOutput draft
  let draft ← (Clauses.entries clauses.copies).foldlM defineTarget draft
  (Clauses.entries clauses.intervals).foldlM defineInterval draft

/-! ## Clauses -/

def addArgument (draft : Draft) (entry : SExpr) : Except FormFailure Draft := do
  let (v, draft) ← draft.lookup entry
  return { draft with unit := draft.unit.markArgument v }

/-- Reads instructions, whose numbers increase from `last` on. -/
def addInstructions (draft : Draft) (last : Int64) : List SExpr → Except FormFailure Draft
  | [] => .ok draft
  | entry :: rest => do
    let (i, draft) ← draft.readInstruction entry
    let number := (draft.unit.instr i).number
    if number ≤ last then entry.refuse (.instrOrder number last)
    let unit ← FormFailure.lift (draft.unit.addInstr i)
    { draft with unit }.addInstructions number rest

/-- Reads a copy. -/
def addCopy (draft : Draft) (entry : SExpr) : Except FormFailure Draft :=
  match entry with
  | .list [position, source, target] _ => do
    let n ← position.toInt "copy position"
    if n ≤ 0 then entry.refuse (.copyNotPositive n)
    let (source, draft) ← draft.lookup source
    let (target, draft) ← draft.lookup target
    return { draft with unit := draft.unit.addCopy ⟨n, source, target⟩ }
  | _ => entry.refuse (.badCopy entry.text)

/-- Reads a fixed register. -/
def addFixed (draft : Draft) (entry : SExpr) : Except FormFailure Draft :=
  match entry with
  | .list [value, register] _ => do
    let n ← register.toInt "register"
    if n < 0 then entry.refuse (.negativeRegister n)
    let (v, draft) ← draft.lookup value
    return { draft with unit := draft.unit.modifyValue v fun value =>
      { value with fixed := some n } }
  | _ => entry.refuse (.badFixed entry.text)

/-- The parts of an interval: the value, perhaps its type, the start and the stop. -/
def intervalParts? : SExpr → Option (SExpr × SExpr × SExpr)
  | .list [value, start, stop] _ => some (value, start, stop)
  | .list [value, _, start, stop] _ => some (value, start, stop)
  | _ => none

/-- Reads an interval. -/
def addInterval (draft : Draft) (entry : SExpr) : Except FormFailure Draft :=
  match intervalParts? entry with
  | some (value, start, stop) => do
    let (v, draft) ← draft.lookup value
    let start ← start.toInt "interval start"
    let stop ← stop.toInt "interval end"
    if stop ≤ start then entry.refuse (.emptyInterval start stop)
    let pool ← FormFailure.lift (draft.unit.pool.setInterval v start stop)
    return { draft with unit := { draft.unit with pool } }
  | none => entry.refuse (.badInterval entry.text)

/-! ## Units -/

/-- A value that nothing defines and that has no interval. -/
def undefined? (u : CodeUnit) : Option ValueId :=
  let defined := u.definitions.map (·.1)
  u.values.find? fun v => !defined.contains v && !(u.value v).hasInterval

/-- Reads the clauses of a unit. -/
def addAll (draft : Draft) (clauses : Clauses) : Except FormFailure Draft := do
  let draft ← draft.defineAll clauses
  let draft ← (Clauses.entries clauses.arguments).foldlM addArgument draft
  let draft ← draft.addInstructions 0 (Clauses.entries clauses.instructions)
  let draft ← (Clauses.entries clauses.copies).foldlM addCopy draft
  let draft ← (Clauses.entries clauses.fixed).foldlM addFixed draft
  (Clauses.entries clauses.intervals).foldlM addInterval draft

end Draft

namespace CodeUnit

/-- The unit with the given clauses; `expr` is its whole form. -/
def ofClauses (name : String) (expr : SExpr) (clauses : Clauses) : Except FormFailure CodeUnit := do
  let draft ← Draft.addAll { unit := { name } } clauses
  match Draft.undefined? draft.unit with
  | some v => expr.refuse (.noDefinition (draft.unit.value v).name)
  | none =>
    match draft.unit.computeIntervals with
    | (unit, none) => .ok unit
    | (_, some fault) => .error (.fault fault)

/-- Reads a written unit. -/
def ofSExpr (expr : SExpr) : Except FormFailure CodeUnit :=
  match expr with
  | .list (.symbol "unit" _ :: .symbol name _ :: clauses) _ => do
    ofClauses name expr (← Clauses.ofList clauses)
  | _ => expr.refuse .notUnit

end CodeUnit
end RegisterAllocation
