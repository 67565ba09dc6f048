import Scriptlet.Value.Basic

/-! # Equality of values

Two arrays are equal if they have equal elements in the same places, and two maps if they have the
same entries in the order of their keys. The test decides equality as such.
-/

namespace Scriptlet.Value

mutual

def isEqual : Value → Value → Bool
  | int a, int b => a == b
  | bool a, bool b => a == b
  | string a, string b => a == b
  | array xs, array ys => elementsEqual xs ys
  | map xs, map ys => entriesEqual xs ys
  | function a, function b => a == b
  | builtin a, builtin b => a == b
  | null, null => true
  | _, _ => false

def elementsEqual : List Value → List Value → Bool
  | [], [] => true
  | x :: xs, y :: ys => x.isEqual y && elementsEqual xs ys
  | _, _ => false

def entriesEqual : List (Key × Value) → List (Key × Value) → Bool
  | [], [] => true
  | (k, v) :: xs, (l, w) :: ys => k == l && v.isEqual w && entriesEqual xs ys
  | _, _ => false

end

mutual

theorem isEqual_iff (a b : Value) : a.isEqual b = true ↔ a = b := by
  match a with
  | int _ => cases b <;> simp [isEqual]
  | bool _ => cases b <;> simp [isEqual]
  | string _ => cases b <;> simp [isEqual]
  | array xs =>
    cases b with
    | array ys => simp [isEqual, elementsEqual_iff xs ys]
    | _ => simp [isEqual]
  | map xs =>
    cases b with
    | map ys => simp [isEqual, entriesEqual_iff xs ys]
    | _ => simp [isEqual]
  | function _ => cases b <;> simp [isEqual]
  | builtin _ => cases b <;> simp [isEqual]
  | null => cases b <;> simp [isEqual]

theorem elementsEqual_iff (xs ys : List Value) : elementsEqual xs ys = true ↔ xs = ys := by
  match xs, ys with
  | [], [] => simp [elementsEqual]
  | [], y :: ys => simp [elementsEqual]
  | x :: xs, [] => simp [elementsEqual]
  | x :: xs, y :: ys => simp [elementsEqual, isEqual_iff x y, elementsEqual_iff xs ys]

theorem entriesEqual_iff (xs ys : List (Key × Value)) : entriesEqual xs ys = true ↔ xs = ys := by
  match xs, ys with
  | [], [] => simp [entriesEqual]
  | [], y :: ys => simp [entriesEqual]
  | x :: xs, [] => simp [entriesEqual]
  | (k, v) :: xs, (l, w) :: ys =>
    simp [entriesEqual, isEqual_iff v w, entriesEqual_iff xs ys]

end

instance : DecidableEq Value := fun a b =>
  decidable_of_iff (a.isEqual b = true) (isEqual_iff a b)

end Scriptlet.Value
