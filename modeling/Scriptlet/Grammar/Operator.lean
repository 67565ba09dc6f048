/-! # Operators

Binding powers order the operators. An operator whose right power exceeds its left power groups to
the left, and a larger power binds tighter.
-/

namespace Scriptlet.Grammar

inductive UnaryOp where
  | not | negate
deriving DecidableEq, Repr

namespace UnaryOp

def symbol : UnaryOp → String
  | not => "!"
  | negate => "-"

/-- The power that the operand of a unary operator has to exceed. -/
def power : UnaryOp → Nat
  | _ => 11

end UnaryOp

inductive BinaryOp where
  | multiply | divide | add | subtract | less | greater | equal | notEqual
deriving DecidableEq, Repr

namespace BinaryOp

def all : List BinaryOp :=
  [multiply, divide, add, subtract, less, greater, equal, notEqual]

def symbol : BinaryOp → String
  | multiply => "*"
  | divide => "/"
  | add => "+"
  | subtract => "-"
  | less => "<"
  | greater => ">"
  | equal => "=="
  | notEqual => "!="

def leftPower : BinaryOp → Nat
  | multiply | divide => 9
  | add | subtract => 7
  | less | greater => 5
  | equal | notEqual => 3

def rightPower (op : BinaryOp) : Nat :=
  op.leftPower + 1

theorem mem_all (op : BinaryOp) : op ∈ all := by
  cases op <;> decide

end BinaryOp

/-- Calls and index expressions follow their first operand and bind tightest. -/
def suffixPower : Nat := 13

end Scriptlet.Grammar
