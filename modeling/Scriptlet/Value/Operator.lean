import Scriptlet.Value.Equality
import Scriptlet.Value.Fault

/-! # Operators on values

Integers are signed 64-bit words whose arithmetic wraps around. Operands of different kinds are a
mismatch, strings have no operator but `+`, and all other kinds can only be tested for equality.
-/

namespace Scriptlet.Value

def isTruthy : Value → Bool
  | bool false | null => false
  | _ => true

def unary : Grammar.UnaryOp → Value → Except Fault Value
  | .not, operand => .ok (bool (!operand.isTruthy))
  | .negate, int n => .ok (int (-n))
  | .negate, operand => .error (.unknownUnary .negate operand.kind)

/-- Division goes toward zero. -/
def arithmetic (op : Grammar.BinaryOp) (a b : Int64) : Except Fault Value :=
  match op with
  | .add => .ok (int (a + b))
  | .subtract => .ok (int (a - b))
  | .multiply => .ok (int (a * b))
  | .divide => if b = 0 then .error (.divisionByZero a) else .ok (int (a / b))
  | .less => .ok (bool (a < b))
  | .greater => .ok (bool (b < a))
  | .equal => .ok (bool (a = b))
  | .notEqual => .ok (bool (a ≠ b))

def concatenation (op : Grammar.BinaryOp) (a b : String) : Except Fault Value :=
  match op with
  | .add => .ok (string (a ++ b))
  | op => .error (.unknownBinary op .string)

/-- The operators of all kinds but integers and strings. -/
def comparison (op : Grammar.BinaryOp) (lhs rhs : Value) : Except Fault Value :=
  match op with
  | .equal => .ok (bool (lhs.isEqual rhs))
  | .notEqual => .ok (bool (!lhs.isEqual rhs))
  | op => .error (.unknownBinary op lhs.kind)

def binary (op : Grammar.BinaryOp) : Value → Value → Except Fault Value
  | int a, int b => arithmetic op a b
  | string a, string b => concatenation op a b
  | lhs, rhs =>
    if lhs.kind = rhs.kind then comparison op lhs rhs
    else .error (.typeMismatch [lhs.kind] rhs.kind)

theorem binary_of_others (op : Grammar.BinaryOp) {lhs rhs : Value}
    (hints : ∀ a b, lhs = int a → rhs = int b → False)
    (hstrings : ∀ a b, lhs = string a → rhs = string b → False) :
    binary op lhs rhs
      = if lhs.kind = rhs.kind then comparison op lhs rhs
        else .error (.typeMismatch [lhs.kind] rhs.kind) := by
  rw [binary]
  · exact hints
  · exact hstrings

/-- Where operands are told apart at all, `==` and `!=` tell opposite things. Neither takes strings
or operands of different kinds. -/
theorem equality_cases (a b : Value) :
    (binary .equal a b = .ok (bool (a.isEqual b)) ∧
      binary .notEqual a b = .ok (bool (!a.isEqual b))) ∨
    (∃ fault, binary .equal a b = .error fault) ∧ ∃ fault, binary .notEqual a b = .error fault := by
  fun_cases binary .equal a b
  case case1 m n =>
    have hequal : (int m).isEqual (int n) = decide (m = n) := by
      rw [isEqual]
      rfl
    refine Or.inl ⟨?_, ?_⟩
    · rw [hequal, arithmetic]
    · rw [hequal, binary, arithmetic, decide_not]
  case case2 s t => exact Or.inr ⟨⟨_, rfl⟩, ⟨_, rfl⟩⟩
  case case3 hints hstrings hkind =>
    refine Or.inl ⟨rfl, ?_⟩
    rw [binary_of_others .notEqual hints hstrings, if_pos hkind, comparison]
  case case4 hints hstrings hkind =>
    refine Or.inr ⟨⟨_, rfl⟩, .typeMismatch [a.kind] b.kind, ?_⟩
    rw [binary_of_others .notEqual hints hstrings, if_neg hkind]

/-- The value as a key of maps. -/
def toKey : Value → Except Fault Key
  | int n => .ok (.int n)
  | bool b => .ok (.bool b)
  | string s => .ok (.string s)
  | value => .error (.typeMismatch [.integer, .boolean, .string] value.kind)

/-- The element at a position counted from zero; null before the first and after the last. -/
def elementAt (elements : List Value) (position : Int64) : Value :=
  match position.toInt with
  | .ofNat n => elements[n]?.getD null
  | .negSucc _ => null

def index : Value → Value → Except Fault Value
  | array elements, int position => .ok (elementAt elements position)
  | array _, position => .error (.typeMismatch [.integer] position.kind)
  | map entries, position => do
    let key ← position.toKey
    return (Entries.find? key entries).getD null
  | collection, _ => .error (.typeMismatch [.array, .map] collection.kind)

end Scriptlet.Value
