import Scriptlet.Store
import Scriptlet.Value.Operator

/-! # Equal values

The test for equality is an equivalence. Values that are equal have the same kind, the same truth,
the same key and the same text, and no operator tells them apart.
-/

namespace Scriptlet.Value

/-- Equal values, or the same fault. -/
def SameResult : Except Fault Value → Except Fault Value → Prop
  | .ok a, .ok b => a.isEqual b = true
  | .error fault, .error other => fault = other
  | _, _ => False

theorem SameResult.refl (result : Except Fault Value) : SameResult result result := by
  cases result with
  | ok value => exact (isEqual_iff value value).mpr rfl
  | error fault => exact rfl

/-- Either of two values does for the other, as an operand of any operator as well. -/
structure Interchangeable (a b : Value) : Prop where
  kind : a.kind = b.kind
  isTruthy : a.isTruthy = b.isTruthy
  toKey : a.toKey = b.toKey
  render : ∀ {α : Type} (store : Store α), store.render a = store.render b
  left : ∀ op other, SameResult (binary op a other) (binary op b other)
  right : ∀ op other, SameResult (binary op other a) (binary op other b)

theorem interchangeable_of_isEqual {a b : Value} (h : a.isEqual b = true) :
    Interchangeable a b := by
  cases (isEqual_iff a b).mp h
  exact
    { kind := rfl
      isTruthy := rfl
      toKey := rfl
      render := fun _ => rfl
      left := fun op other => .refl (binary op a other)
      right := fun op other => .refl (binary op other a) }

theorem equivalence_isEqual : Equivalence fun a b : Value => a.isEqual b = true where
  refl a := (isEqual_iff a a).mpr rfl
  symm {a b} h := (isEqual_iff b a).mpr ((isEqual_iff a b).mp h).symm
  trans {a b c} hab hbc :=
    (isEqual_iff a c).mpr (((isEqual_iff a b).mp hab).trans ((isEqual_iff b c).mp hbc))

/-- The equality of values is an equivalence and a congruence, and `!=` is its opposite. -/
theorem isEqual_congruence :
    (Equivalence fun a b : Value => a.isEqual b = true) ∧
    (∀ a b : Value, a.isEqual b = true → Interchangeable a b) ∧
    ∀ a b : Value,
      (binary .equal a b = .ok (bool (a.isEqual b)) ∧
        binary .notEqual a b = .ok (bool (!a.isEqual b))) ∨
      (∃ fault, binary .equal a b = .error fault) ∧
        ∃ fault, binary .notEqual a b = .error fault :=
  ⟨equivalence_isEqual, fun _ _ => interchangeable_of_isEqual, equality_cases⟩

/-- Arrays with maps in them, one of which was put together by operators. -/
theorem isEqual_congruence_nested :
    let xs : Value := .array [.map [(.int 1, .string "ab"), (.bool true, .null)], .function 3]
    ∃ difference text,
      binary .subtract (.int (-9223372036854775808)) (.int 9223372036854775807) = .ok difference ∧
      binary .add (.string "a") (.string "b") = .ok text ∧
      difference.toKey = .ok (.int 1) ∧
      let ys : Value := .array [.map [(.int 1, text), (.bool true, .null)], .function 3]
      xs.isEqual ys = true ∧ Interchangeable xs ys := by
  intro xs
  have hequal : xs.isEqual xs = true := by decide
  exact ⟨.int 1, .string "ab", rfl, rfl, rfl, hequal, isEqual_congruence.2.1 xs xs hequal⟩

end Scriptlet.Value
