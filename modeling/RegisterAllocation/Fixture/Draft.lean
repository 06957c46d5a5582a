import RegisterAllocation.Code.Unit
import RegisterAllocation.Fixture.Form
import RegisterAllocation.SExpr.Basic

/-!
# Units in the making

While a unit is read, names refer to its values. A value is defined by a list of its name and its
type and referred to by its name. Values are numbered in the order of their definitions.
-/

namespace RegisterAllocation

namespace SExpr

/-- The refusal of an expression. -/
def refuse {α : Type} (expr : SExpr) (cause : FormCause) : Except FormFailure α :=
  .error (.malformed ⟨expr.line, cause⟩)

/-- The integer that an expression has to be; `what` tells its role. -/
def toInt (expr : SExpr) (what : String) : Except FormFailure Int64 :=
  match expr with
  | .int n _ => .ok n
  | _ => expr.refuse (.notInteger what expr.text)

end SExpr

/-- A unit in the making. -/
structure Draft where
  unit : CodeUnit
  /-- The values that names refer to. -/
  bindings : List (String × ValueId) := []
deriving Repr

namespace Draft

def isBound (draft : Draft) (name : String) : Bool := (draft.bindings.lookup name).isSome

/-- Adds a new value. -/
def addValue (draft : Draft) (name : String) (type : MoveType) :
    Except FormFailure (ValueId × Draft) := do
  let value : Value := { number := Int64.ofNat draft.unit.values.length, name, type }
  let (v, pool) := draft.unit.pool.addValue value
  let unit ← FormFailure.lift ({ draft.unit with pool }.addValue v)
  return (v, { unit, bindings := (name, v) :: draft.bindings })

/-- The value of a definition. A second definition has to agree with the first. -/
def define (draft : Draft) (expr : SExpr) : Except FormFailure (ValueId × Draft) :=
  match expr with
  | .list [.symbol name _, .symbol typeName _] _ =>
    match MoveType.ofName? typeName with
    | none => expr.refuse (.unknownValueType typeName)
    | some type =>
      match draft.bindings.lookup name with
      | none => draft.addValue name type
      | some v =>
        let known := (draft.unit.value v).type
        if known = type then .ok (v, draft) else expr.refuse (.typeClash name known type)
  | _ => expr.refuse (.badDefinition expr.text)

/-- The value that an expression refers to: a name or a definition. -/
def lookup (draft : Draft) (expr : SExpr) : Except FormFailure (ValueId × Draft) :=
  match expr with
  | .list .. => draft.define expr
  | .symbol name _ =>
    match draft.bindings.lookup name with
    | some v => .ok (v, draft)
    | none => expr.refuse (.undefinedValue name)
  | .int .. => expr.refuse (.notAName expr.text)

end Draft
end RegisterAllocation
