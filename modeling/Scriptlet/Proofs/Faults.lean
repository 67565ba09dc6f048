import Mathlib.Data.List.Basic
import Scriptlet.Proofs.Parts

/-! # Faults and the expressions that raise them

A fault tells which expression it comes of: a name that is not bound of that very name, an operator
without a meaning of an expression with that operator, a wrong number of arguments of a call. A
mismatch never names the actual kind among the expected ones; and where a function is expected, a
built-in one will do, but for an operator with a function on its left.
-/

namespace Scriptlet

open Grammar

variable {α : Type}

/-- Evaluating the expression can end in the fault when all its parts have values. -/
def Fault.Fits (expr : Expr α) : Fault → Prop
  | .unknownName text => ∃ label, expr = .name label text
  | .unknownUnary op _ => op = .negate ∧ ∃ label operand, expr = .unary label op operand
  | .unknownBinary op _ => ∃ label lhs rhs, expr = .binary label op lhs rhs
  | .divisionByZero _ => ∃ label lhs rhs, expr = .binary label .divide lhs rhs
  | .wrongArity expected actual =>
    expected ≠ actual ∧ ∃ label callee arguments, expr = .call label callee arguments
  | .typeMismatch expected actual =>
    actual ∉ expected ∧ (.function ∈ expected → actual = .builtin →
      ∃ label op lhs rhs, expr = .binary label op lhs rhs)
  | .malformed _ => False

/-- Where no function is expected, a mismatch fits any expression. -/
theorem Fault.fits_of_function_notMem {expected : List Value.Kind} {actual : Value.Kind}
    (hactual : actual ∉ expected) (hfunction : .function ∉ expected) (expr : Expr α) :
    (Fault.typeMismatch expected actual).Fits expr :=
  ⟨hactual, fun hmem => absurd hmem hfunction⟩

namespace Value

theorem fits_unary {op : UnaryOp} {operand : Value} {fault : Fault} (label : α) (expr : Expr α)
    (h : operand.unary op = .error fault) : fault.Fits (.unary label op expr) := by
  revert h
  fun_cases Value.unary op operand
  case case3 =>
    intro h
    cases h
    exact ⟨rfl, label, expr, rfl⟩
  all_goals exact nofun

theorem fits_binary {op : BinaryOp} {a b : Value} {fault : Fault} (label : α) (lhs rhs : Expr α)
    (h : binary op a b = .error fault) : fault.Fits (.binary label op lhs rhs) := by
  revert h
  fun_cases Value.binary op a b
  case case1 m n =>
    intro h
    cases op with
    | divide =>
      simp only [arithmetic] at h
      split at h
      · cases h
        exact ⟨label, lhs, rhs, rfl⟩
      · cases h
    | _ => cases h
  case case2 s t =>
    intro h
    cases op with
    | add => cases h
    | _ =>
      cases h
      exact ⟨label, lhs, rhs, rfl⟩
  case case3 =>
    intro h
    cases op with
    | equal | notEqual => cases h
    | _ =>
      cases h
      exact ⟨label, lhs, rhs, rfl⟩
  case case4 hkind =>
    intro h
    cases h
    exact ⟨fun hmem => hkind (List.mem_singleton.mp hmem).symm,
      fun _ _ => ⟨label, op, lhs, rhs, rfl⟩⟩

/-- A function is never expected as a key, so that the fault fits any expression. -/
theorem fits_toKey {value : Value} {fault : Fault} (expr : Expr α)
    (h : value.toKey = .error fault) : fault.Fits expr := by
  cases value with
  | int _ | bool _ | string _ => cases h
  | _ =>
    cases h
    exact Fault.fits_of_function_notMem (by simp [kind]) (by decide) _

theorem fits_index {collection position : Value} {fault : Fault} (label : α) (lhs rhs : Expr α)
    (h : collection.index position = .error fault) : fault.Fits (.index label lhs rhs) := by
  cases collection with
  | array elements =>
    cases position with
    | int n => cases h
    | _ =>
      cases h
      exact Fault.fits_of_function_notMem (by simp [kind]) (by decide) _
  | map entries =>
    rw [Value.index] at h
    cases hkey : position.toKey with
    | error other =>
      rw [hkey] at h
      cases h
      exact fits_toKey _ hkey
    | ok key =>
      rw [hkey] at h
      cases h
  | _ =>
    cases h
    exact Fault.fits_of_function_notMem (by simp [kind]) (by decide) _

theorem fits_call {primitive : Builtin} {arguments : List Value} {fault : Fault} (label : α)
    (callee : Expr α) (exprs : List (Expr α)) (h : primitive.call arguments = .error fault) :
    fault.Fits (.call label callee exprs) := by
  rw [Builtin.call] at h
  split at h
  · next hany =>
    cases primitive with
    | puts => cases h
    | _ => cases hany
  split at h
  · next arity harity hlength =>
    -- With the right number of arguments only the kind of the first one can be wrong.
    cases primitive with
    | puts => cases harity
    | push =>
      cases harity
      obtain ⟨value, added, rfl⟩ := List.length_eq_two.mp hlength
      cases value with
      | array elements => cases h
      | _ =>
        cases h
        exact Fault.fits_of_function_notMem (by simp [kind]) (by decide) _
    | rest =>
      cases harity
      obtain ⟨value, rfl⟩ := List.length_eq_one_iff.mp hlength
      cases value with
      | array elements => cases elements <;> cases h
      | _ =>
        cases h
        exact Fault.fits_of_function_notMem (by simp [kind]) (by decide) _
    | first | last =>
      cases harity
      obtain ⟨value, rfl⟩ := List.length_eq_one_iff.mp hlength
      cases value with
      | array elements => cases h
      | _ =>
        cases h
        exact Fault.fits_of_function_notMem (by simp [kind]) (by decide) _
    | len =>
      cases harity
      obtain ⟨value, rfl⟩ := List.length_eq_one_iff.mp hlength
      cases value with
      | string text => cases h
      | array elements => cases h
      | _ =>
        cases h
        exact Fault.fits_of_function_notMem (by simp [kind]) (by decide) _
  · next hlength =>
    cases h
    exact ⟨fun heq => hlength heq.symm, label, callee, exprs, rfl⟩

end Value

end Scriptlet
