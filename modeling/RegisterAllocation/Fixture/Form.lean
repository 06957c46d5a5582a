import RegisterAllocation.MoveType

/-!
# Errors in written forms

Units and moves are written as s-expressions. An expression that is not of the expected form is
reported with the line on which it starts.
-/

namespace RegisterAllocation

/-- What is wrong with a form. Expressions are given by their texts. -/
inductive FormCause where
  | notUnit
  | unknownClause (clause : String)
  | duplicateClause (head : String)
  | badDefinition (expr : String)
  | unknownValueType (type : String)
  | typeClash (name : String) (first second : MoveType)
  | notAName (expr : String)
  | undefinedValue (name : String)
  | notInteger (what expr : String)
  | argumentTwice (name : String)
  | badInstruction (expr : String)
  | definedTwice (name : String)
  | instrNotPositive (number : Int64)
  | badOpcode (expr : String)
  | unknownOpcode (name : String)
  | badConst (expr : String)
  | badBinop (opcode expr : String)
  | badInvoke (opcode expr : String)
  | badMove (expr : String)
  | missingOutput (expr : String)
  | badOutput (expr : String)
  | badInput (expr : String)
  | badLiteral (expr : String)
  | instrOrder (number last : Int64)
  | badCopy (expr : String)
  | copyNotPositive (position : Int64)
  | badFixed (expr : String)
  | negativeRegister (register : Int64)
  | badInterval (expr : String)
  | emptyInterval (start stop : Int64)
  | noDefinition (name : String)
  | notMoves
  | badMoveEntry (expr : String)
  | unknownMoveType (type : String)
  | negativeInMove (expr : String)
  | writtenTwice (register : Int64)
deriving DecidableEq, Repr

namespace FormCause

/-- The text of what is wrong with a form. -/
def message : FormCause → String
  | notUnit => "expected (unit name ...)"
  | unknownClause clause => "unknown unit clause " ++ clause
  | duplicateClause head => "duplicate '" ++ head ++ "' clause"
  | badDefinition expr => "bad value definition " ++ expr
  | unknownValueType type => "unknown value type '" ++ type ++ "'"
  | typeClash name first second =>
    "'" ++ name ++ "' is both " ++ first.name ++ " and " ++ second.name
  | notAName expr => "expected a value name, got " ++ expr
  | undefinedValue name => "undefined value '" ++ name ++ "'"
  | notInteger what expr => what ++ " is not an integer: " ++ expr
  | argumentTwice name => "argument '" ++ name ++ "' is defined twice"
  | badInstruction expr => "bad instruction " ++ expr
  | definedTwice name => "'" ++ name ++ "' is defined twice"
  | instrNotPositive number =>
    "instruction number " ++ Decimal.ofWord number ++ " is not positive"
  | badOpcode expr => "bad opcode " ++ expr
  | unknownOpcode name => "unknown opcode '" ++ name ++ "'"
  | badConst expr => "expected (number const out literal), got " ++ expr
  | badBinop opcode expr => "expected (number " ++ opcode ++ " out left right), got " ++ expr
  | badInvoke opcode expr =>
    "expected (number " ++ opcode ++ " method out input ...), got " ++ expr
  | badMove expr => "expected (number move out input), got " ++ expr
  | missingOutput expr => "missing output for " ++ expr
  | badOutput expr => "output must be () or (name type), got " ++ expr
  | badInput expr => "inputs must be value names, got " ++ expr
  | badLiteral expr => "bad literal " ++ expr
  | instrOrder number last =>
    "instruction " ++ Decimal.ofWord number ++ " follows instruction " ++ Decimal.ofWord last
  | badCopy expr => "expected (position from to), got " ++ expr
  | copyNotPositive position => "copy position " ++ Decimal.ofWord position ++ " is not positive"
  | badFixed expr => "expected (value register), got " ++ expr
  | negativeRegister register => "negative register " ++ Decimal.ofWord register
  | badInterval expr => "expected (value start end), got " ++ expr
  | emptyInterval start stop =>
    "empty interval [" ++ Decimal.ofWord start ++ ", " ++ Decimal.ofWord stop ++ ")"
  | noDefinition name => "'" ++ name ++ "' has no definition and no interval"
  | notMoves => "expected (moves ...)"
  | badMoveEntry expr => "expected (dst src type), got " ++ expr
  | unknownMoveType type => "unknown move type '" ++ type ++ "'"
  | negativeInMove expr => "negative register in " ++ expr
  | writtenTwice register => "two moves write register " ++ Decimal.ofWord register

end FormCause

/-- What is wrong with a form, and the line of the expression. -/
structure FormError where
  line : Nat
  cause : FormCause
deriving DecidableEq, Repr

namespace FormError

/-- The text of an error in a form. -/
def message (error : FormError) : String :=
  "line " ++ Decimal.ofNat error.line ++ ": " ++ error.cause.message

end FormError

/-- How reading a form ends without success: the form is wrong, or a contract is broken. -/
inductive FormFailure where
  | malformed (error : FormError)
  | fault (fault : Fault)
deriving DecidableEq, Repr

namespace FormFailure

/-- Passes a computation that can only break a contract into the reading of a form. -/
def lift {α : Type} (result : Except Fault α) : Except FormFailure α := result.mapError .fault

end FormFailure
end RegisterAllocation
