import Scriptlet.Inspect.Grammar
import Scriptlet.Store
import Scriptlet.Value.Fault

/-! # Structure of values, failures and frames

A function shows its literal and hides the frame it was made in, from which it may itself be
reachable. A frame shows the names that it binds and hides their values for the same reason.
-/

namespace Scriptlet

open Inspect

namespace Value

def Builtin.inspect : Builtin → Document
  | len => .atom "NativeLen"
  | first => .atom "NativeFirst"
  | last => .atom "NativeLast"
  | rest => .atom "NativeRest"
  | push => .atom "NativePush"
  | puts => .atom "NativePuts"

def Kind.inspect : Kind → Document
  | integer => .atom "Integer"
  | boolean => .atom "Boolean"
  | string => .atom "String"
  | array => .atom "Array"
  | map => .atom "Map"
  | function => .atom "Function"
  | builtin => .atom "Builtin"
  | null => .atom "Null"

def Key.inspect : Key → Document
  | int value => .apply "Integer" [.atom (toString value.toInt)]
  | bool value => .apply "Bool" [.atom (toString value)]
  | string text => .apply "String" [.string text]

variable (function : Nat → Document)

mutual

def inspectAs : Value → Document
  | .int value => .apply "Integer" [.atom (toString value.toInt)]
  | .bool value => .apply "Bool" [.atom (toString value)]
  | .string text => .apply "String" [.string text]
  | .array elements => .apply "Array" [.list (inspectElements elements)]
  | .map entries => .apply "Map" [.map (inspectEntries entries)]
  | .function reference => .apply "Function" [function reference]
  | .builtin b => .apply "NativeFunction" [b.inspect]
  | .null => .atom "Null"

def inspectElements : List Value → List Document
  | [] => []
  | value :: rest => value.inspectAs :: inspectElements rest

def inspectEntries : List (Key × Value) → List (Document × Document)
  | [] => []
  | (key, value) :: rest => (key.inspect, value.inspectAs) :: inspectEntries rest

end

end Value

def Closure.inspect (closure : Closure Token) : Document :=
  .record "Function"
    [("literal", Grammar.inspectFunction closure.parameters closure.body.inspect)] true

namespace Store

def inspectFunction (store : Store Token) (reference : Nat) : Document :=
  (store.closures[reference]?.map Closure.inspect).getD (.atom "Function")

def inspect (store : Store Token) (value : Value) : Document :=
  value.inspectAs store.inspectFunction

/-- A chain of frames from the inside out, each with its names in order. -/
def inspectChain : List Frame → Option Document
  | [] => none
  | frame :: rest =>
    some (.fields "Environment"
      [("names", .list ((Entries.keys frame.bindings).map .string)),
        ("parent", .option (inspectChain rest))])

def inspectFrame {α : Type} (store : Store α) (id : Nat) : Document :=
  (inspectChain (store.chain id)).getD (.atom "Environment")

end Store

def Fault.inspect : Fault → Document
  | typeMismatch expected actual =>
    .fields "TypeMismatch"
      [("expected", .string (expectation expected)), ("actual", actual.inspect)]
  | unknownUnary op operand => .apply "UnknownOperator" [.string (unaryText op operand)]
  | unknownBinary op operands => .apply "UnknownOperator" [.string (binaryText op operands)]
  | divisionByZero dividend => .apply "UnknownOperator" [.string (divisionText dividend)]
  | unknownName name => .apply "UnknownIdentifier" [.string name]
  | wrongArity expected actual =>
    .fields "IncorrectNumberOfArgs"
      [("expected", .atom (toString expected)), ("actual", .atom (toString actual))]
  | malformed errors => .apply "ParseError" [.list (errors.map (·.inspect))]

def Failure.inspect (failure : Failure) : Document :=
  .fields "RuntimeError" [("kind", failure.fault.inspect), ("span", failure.span.inspect)]

end Scriptlet
