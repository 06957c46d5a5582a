import RegisterAllocation.Text.Decimal

/-!
# S-expressions

Integers, symbols and lists of s-expressions. Every node knows the line on which it starts.
`SExpr.text` writes an expression on one line, with single spaces between the elements of a list.
-/

namespace RegisterAllocation

/-- An s-expression, with the line on which each node starts. -/
inductive SExpr where
  | int (value : Int64) (line : Nat)
  | symbol (name : String) (line : Nat)
  | list (items : List SExpr) (line : Nat)
deriving Repr

namespace SExpr

def line : SExpr → Nat
  | int _ line | symbol _ line | list _ line => line

def isList : SExpr → Bool
  | list .. => true
  | _ => false

/-- The elements of a list; other expressions have none. -/
def items : SExpr → List SExpr
  | list items _ => items
  | _ => []

/-- The symbol at the head of a list, or the empty text if there is none. -/
def head : SExpr → String
  | list (symbol name _ :: _) _ => name
  | _ => ""

mutual

/-- The one-line text of an expression. -/
def text : SExpr → String
  | int value _ => Decimal.ofWord value
  | symbol name _ => name
  | list [] _ => "()"
  | list (first :: rest) _ => "(" ++ first.text ++ textRest rest ++ ")"

/-- The texts of further list elements, each after a space. -/
def textRest : List SExpr → String
  | [] => ""
  | item :: items => " " ++ item.text ++ textRest items

end

end SExpr
end RegisterAllocation
