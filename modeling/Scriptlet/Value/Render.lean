import Scriptlet.Value.Basic

/-! # Text of values

A string is written bare, and between quotes where it stands in an array or a map. The text of a
function comes from its closure.
-/

namespace Scriptlet.Value

def Key.render : Key → String
  | int value => toString value.toInt
  | bool value => toString value
  | string text => "\"" ++ text ++ "\""

variable (function : Nat → String)

mutual

/-- The text of a value, with strings bare or not. -/
def renderAs (bare : Bool) : Value → String
  | .int value => toString value.toInt
  | .bool value => toString value
  | .string text => if bare then text else "\"" ++ text ++ "\""
  | .array elements => "[" ++ ", ".intercalate (renderElements elements) ++ "]"
  | .map entries => "\x7b" ++ ", ".intercalate (renderEntries entries) ++ "\x7d"
  | .function reference => function reference
  | .builtin _ => "builtin function"
  | .null => "null"

def renderElements : List Value → List String
  | [] => []
  | value :: rest => value.renderAs false :: renderElements rest

def renderEntries : List (Key × Value) → List String
  | [] => []
  | (key, value) :: rest => (key.render ++ ": " ++ value.renderAs false) :: renderEntries rest

end

end Scriptlet.Value
