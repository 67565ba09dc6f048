import Scriptlet.Grammar.Error
import Scriptlet.Grammar.Operator
import Scriptlet.Value.Basic

/-! # Faults

What can go wrong in a run.
-/

namespace Scriptlet

inductive Fault where
  /-- The value is of none of the kinds that are expected. -/
  | typeMismatch (expected : List Value.Kind) (actual : Value.Kind)
  | unknownUnary (op : Grammar.UnaryOp) (operand : Value.Kind)
  /-- Both operands are of the same kind, which does not have the operator. -/
  | unknownBinary (op : Grammar.BinaryOp) (operands : Value.Kind)
  | divisionByZero (dividend : Int64)
  | unknownName (name : String)
  | wrongArity (expected actual : Nat)
  /-- The program could not be read, and so does not run. -/
  | malformed (errors : List Grammar.Error)
deriving DecidableEq, Repr

/-- A choice in words: `A`, `A or B`, `A, B or C`. -/
def choice : List String → String
  | [] => ""
  | [name] => name
  | [name, last] => name ++ " or " ++ last
  | name :: rest => name ++ ", " ++ choice rest

namespace Fault

def expectation (expected : List Value.Kind) : String :=
  choice (expected.map (·.name))

def unaryText (op : Grammar.UnaryOp) (operand : Value.Kind) : String :=
  op.symbol ++ operand.name

def binaryText (op : Grammar.BinaryOp) (operands : Value.Kind) : String :=
  operands.name ++ " " ++ op.symbol ++ " " ++ operands.name

def divisionText (dividend : Int64) : String :=
  toString dividend.toInt ++ " / 0 (division by zero)"

def message : Fault → String
  | typeMismatch expected actual =>
    "Type mismatch: expected " ++ expectation expected ++ ", got " ++ actual.name
  | unknownUnary op operand => "Unknown operator: " ++ unaryText op operand
  | unknownBinary op operands => "Unknown operator: " ++ binaryText op operands
  | divisionByZero dividend => "Unknown operator: " ++ divisionText dividend
  | unknownName name => "Unknown identifier: " ++ name
  | wrongArity expected actual =>
    "Incorrect number of arguments: expected " ++ toString expected ++ ", got " ++ toString actual
  | malformed errors => "Parse error: " ++ "; ".intercalate (errors.map (·.message))

def code : Fault → String
  | typeMismatch _ _ => "RT001"
  | unknownUnary _ _ | unknownBinary _ _ | divisionByZero _ => "RT002"
  | unknownName _ => "RT003"
  | wrongArity _ _ => "RT004"
  | malformed _ => "RT005"

end Fault

/-- A fault and the place that raised it. -/
structure Failure where
  fault : Fault
  span : Span
deriving DecidableEq, Repr

end Scriptlet
