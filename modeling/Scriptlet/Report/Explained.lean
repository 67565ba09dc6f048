import Scriptlet.Report.Framed
import Scriptlet.Value.Fault

/-! # What framed reports say -/

namespace Scriptlet

open Report

def Report.Label.ofSpan (span : Span) (text : String) : Label :=
  ⟨span.start.toNat, span.stop, text⟩

def Grammar.Error.framed (error : Grammar.Error) : Framed where
  code := error.problem.code
  message := error.message
  place := error.span.start.toNat
  labels := [.ofSpan error.span error.problem.advice]

namespace Fault

/-- What is wrong, without the details. -/
def summary : Fault → String
  | typeMismatch _ _ => "Operand has the wrong type"
  | unknownUnary _ _ | unknownBinary _ _ | divisionByZero _ =>
    "Operator is not defined for these operands"
  | unknownName _ => "Attempted to access a name that has not been defined"
  | wrongArity _ _ => "Attempted to call a function with the wrong number of arguments"
  | malformed _ => "Program failed to parse"

def unsupported (operation : String) : String :=
  Style.marked.paint operation ++ " is not supported"

/-- The details at the place of the fault, or at the place of each error of a program. -/
def labels (span : Span) : Fault → List Label
  | typeMismatch expected actual =>
    [.ofSpan span ("Expected " ++ Style.emphasis.paint (expectation expected) ++ " but got "
      ++ Style.marked.paint actual.name)]
  | unknownUnary op operand => [.ofSpan span (unsupported (unaryText op operand))]
  | unknownBinary op operands => [.ofSpan span (unsupported (binaryText op operands))]
  | divisionByZero dividend => [.ofSpan span (unsupported (divisionText dividend))]
  | unknownName name => [.ofSpan span (Style.marked.paint name ++ " has not been defined.")]
  | wrongArity expected actual =>
    [.ofSpan span ("Function takes " ++ Style.emphasis.paint (toString expected)
      ++ " arguments but got " ++ Style.marked.paint (toString actual) ++ " instead.")]
  | malformed errors => errors.map fun error => .ofSpan error.span error.message

end Fault

def Failure.framed (failure : Failure) : Framed where
  code := failure.fault.code
  message := failure.fault.summary
  place := failure.span.start.toNat
  labels := failure.fault.labels failure.span

end Scriptlet
