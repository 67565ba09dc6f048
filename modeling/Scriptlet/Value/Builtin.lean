import Scriptlet.Value.Fault

/-! # Built-in functions -/

namespace Scriptlet.Value.Builtin

/-- The number of arguments that a built-in takes; `puts` takes any number. -/
def arity? : Builtin → Option Nat
  | len | first | last | rest => some 1
  | push => some 2
  | puts => none

/-- The result on arguments of the right number. -/
def result : Builtin → List Value → Except Fault Value
  | len, [.string text] => .ok (.int (.ofNat text.length))
  | len, [.array elements] => .ok (.int (.ofNat elements.length))
  | len, [value] => .error (.typeMismatch [.string, .array] value.kind)
  | first, [.array elements] => .ok (elements.head?.getD .null)
  | last, [.array elements] => .ok (elements.getLast?.getD .null)
  | rest, [.array []] => .ok .null
  | rest, [.array (_ :: elements)] => .ok (.array elements)
  | push, [.array elements, value] => .ok (.array (elements ++ [value]))
  | first, value :: _ | last, value :: _ | rest, value :: _ | push, value :: _ =>
    .error (.typeMismatch [.array] value.kind)
  | _, _ => .ok .null

def call (builtin : Builtin) (arguments : List Value) : Except Fault Value :=
  match builtin.arity? with
  | none => builtin.result arguments
  | some arity =>
    if arguments.length = arity then builtin.result arguments
    else .error (.wrongArity arity arguments.length)

end Scriptlet.Value.Builtin
