import RegisterAllocation.Fixture.Draft
import RegisterAllocation.Move.Basic

/-!
# Written moves

A set of moves is written as a list of the word `moves` and, for every move, a list of its target,
its source and its type. No two moves write the same slot.
-/

namespace RegisterAllocation
namespace Move

/-- Reads a move. -/
def ofSExpr (entry : SExpr) : Except FormFailure Move :=
  match entry with
  | .list [target, source, .symbol typeName _] _ =>
    match MoveType.ofName? typeName with
    | none => entry.refuse (.unknownMoveType typeName)
    | some type => do
      let target ← target.toInt "destination"
      let source ← source.toInt "source"
      if target < 0 ∨ source < 0 then entry.refuse (.negativeInMove entry.text)
      return .ofRegisters target source type
  | _ => entry.refuse (.badMoveEntry entry.text)

/-- Reads moves that write none of the slots `written` and no slot twice. -/
def ofSExprs (written : WordSet) : List SExpr → Except FormFailure (List Move)
  | [] => .ok []
  | entry :: rest => do
    let move ← ofSExpr entry
    let slots := WordSet.ofList move.written
    match (written.inter slots).members with
    | slot :: _ => entry.refuse (.writtenTwice slot)
    | [] => return move :: (← ofSExprs (written.insertAll move.written) rest)

def setOfSExpr (expr : SExpr) : Except FormFailure (List Move) :=
  match expr with
  | .list (.symbol "moves" _ :: entries) _ => ofSExprs .empty entries
  | _ => expr.refuse .notMoves

end Move
end RegisterAllocation
