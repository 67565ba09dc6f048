import Scriptlet.Entries

/-! # Values

Arrays and maps are never changed in place. The entries of a map ascend in their keys. A function
value refers to the closure that one evaluation of a function literal made; it is equal to itself
and to no other.
-/

namespace Scriptlet

namespace Value

inductive Builtin where
  | len | first | last | rest | push | puts
deriving DecidableEq, Repr

namespace Builtin

def all : List Builtin :=
  [len, first, last, rest, push, puts]

def name : Builtin → String
  | len => "len"
  | first => "first"
  | last => "last"
  | rest => "rest"
  | push => "push"
  | puts => "puts"

def ofName? (name : String) : Option Builtin :=
  all.find? (·.name = name)

theorem mem_all (builtin : Builtin) : builtin ∈ all := by
  cases builtin <;> decide

end Builtin

/-- The values that maps are keyed by. -/
inductive Key where
  | int (value : Int64)
  | bool (value : Bool)
  | string (text : String)
deriving DecidableEq, Repr

namespace Key

/-- Integers come before booleans, and booleans before strings. -/
def order : Key → Key → Ordering
  | int a, int b => compare a b
  | int _, _ => .lt
  | bool _, int _ => .gt
  | bool a, bool b => compare a b
  | bool _, string _ => .lt
  | string a, string b => compare a b
  | string _, _ => .gt

instance : Ord Key := ⟨order⟩

theorem isLE_trans_of {β : Type} [Ord β] [Std.TransOrd β] {l m n : β}
    (hlm : (compare l m).isLE = true) (hmn : (compare m n).isLE = true) :
    (compare l n).isLE = true :=
  Std.TransCmp.isLE_trans hlm hmn

instance : Std.LawfulEqOrd Key where
  compare_self {a} := by
    match a with
    | int n => exact (Std.ReflCmp.compare_self : compare n n = .eq)
    | bool b => exact (Std.ReflCmp.compare_self : compare b b = .eq)
    | string s => exact (Std.ReflCmp.compare_self : compare s s = .eq)
  eq_of_compare {a b} h := by
    match a, b with
    | int _, int _ => exact congrArg int (Std.LawfulEqOrd.eq_of_compare h)
    | bool _, bool _ => exact congrArg bool (Std.LawfulEqOrd.eq_of_compare h)
    | string _, string _ => exact congrArg string (Std.LawfulEqOrd.eq_of_compare h)

instance : Std.TransOrd Key where
  eq_swap {a b} := by
    match a, b with
    | int m, int n => exact (Std.OrientedCmp.eq_swap : compare m n = (compare n m).swap)
    | bool m, bool n => exact (Std.OrientedCmp.eq_swap : compare m n = (compare n m).swap)
    | string m, string n => exact (Std.OrientedCmp.eq_swap : compare m n = (compare n m).swap)
    | int _, bool _ | int _, string _ | bool _, int _ | bool _, string _ | string _, int _
    | string _, bool _ => rfl
  isLE_trans {a b c} hab hbc := by
    match a, b, c with
    | int l, int m, int n => exact isLE_trans_of (l := l) (m := m) (n := n) hab hbc
    | bool l, bool m, bool n => exact isLE_trans_of (l := l) (m := m) (n := n) hab hbc
    | string l, string m, string n => exact isLE_trans_of (l := l) (m := m) (n := n) hab hbc
    | int _, _, bool _ | int _, _, string _ | bool _, _, string _ => rfl

end Key

end Value

inductive Value where
  | int (value : Int64)
  | bool (value : Bool)
  | string (text : String)
  | array (elements : List Value)
  | map (entries : List (Value.Key × Value))
  | function (reference : Nat)
  | builtin (builtin : Value.Builtin)
  | null

namespace Value

/-- The kinds of value that operations tell apart. -/
inductive Kind where
  | integer | boolean | string | array | map | function | builtin | null
deriving DecidableEq, Repr

def Kind.name : Kind → String
  | integer => "INTEGER"
  | boolean => "BOOLEAN"
  | string => "STRING"
  | array => "ARRAY"
  | map => "MAP"
  | function => "FUNCTION"
  | builtin => "BUILTIN"
  | null => "NULL"

def kind : Value → Kind
  | int _ => .integer
  | bool _ => .boolean
  | string _ => .string
  | array _ => .array
  | map _ => .map
  | function _ => .function
  | builtin _ => .builtin
  | null => .null

end Value

end Scriptlet
