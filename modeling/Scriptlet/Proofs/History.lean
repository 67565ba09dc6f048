import Scriptlet.Proofs.Effect

/-! # Histories of stores

What a run does to a store is a list of changes, each of one of four kinds. A function value names
one change among them, the one that made its closure: two changes never make the same function.
-/

namespace Scriptlet

variable {α : Type}

inductive Change (α : Type) where
  | opened (parent : Nat)
  | made (closure : Closure α)
  | bound (frame : Nat) (name : String) (value : Value)
  | wrote (text : String)

namespace Change

def apply (s : Store α) : Change α → Store α
  | opened parent => (s.openFrame parent).2
  | made closure => (s.close closure).2
  | bound frame name value => s.declare frame name value
  | wrote text => s.write text

/-- Frames and closures are only added, and a frame stays in the frame it was opened in. -/
theorem footprint (s : Store α) (change : Change α) :
    Footprint (fun _ _ => True) s (change.apply s) := by
  cases change with
  | opened parent => exact .openFrame parent s
  | made closure => exact .close closure s
  | bound frame name value => exact .declare trivial value s
  | wrote text => exact .of_frames_eq rfl fun _ _ h => h

theorem size_le (s : Store α) (change : Change α) :
    s.frames.size ≤ (change.apply s).frames.size ∧
      s.closures.size ≤ (change.apply s).closures.size := by
  cases change with
  | opened parent =>
    simp only [apply, Store.openFrame, Array.size_push]
    exact ⟨Nat.le_succ _, Nat.le_refl _⟩
  | made closure =>
    simp only [apply, Store.close, Array.size_push]
    exact ⟨Nat.le_refl _, Nat.le_succ _⟩
  | bound frame name value =>
    simp only [apply, Store.declare, Array.size_modify]
    exact ⟨Nat.le_refl _, Nat.le_refl _⟩
  | wrote text => exact ⟨Nat.le_refl _, Nat.le_refl _⟩

end Change

namespace Store

def replay (s : Store α) (changes : List (Change α)) : Store α :=
  changes.foldl Change.apply s

theorem replay_append (s : Store α) (changes more : List (Change α)) :
    s.replay (changes ++ more) = (s.replay changes).replay more :=
  List.foldl_append

theorem footprint_replay (s : Store α) (changes : List (Change α)) :
    Footprint (fun _ _ => True) s (s.replay changes) := by
  induction changes generalizing s with
  | nil => exact .refl s
  | cons change rest ih => exact (change.footprint s).trans (ih (change.apply s))

theorem size_replay_le (s : Store α) (changes : List (Change α)) :
    s.frames.size ≤ (s.replay changes).frames.size ∧
      s.closures.size ≤ (s.replay changes).closures.size := by
  induction changes generalizing s with
  | nil => exact ⟨Nat.le_refl _, Nat.le_refl _⟩
  | cons change rest ih =>
    obtain ⟨hframes, hclosures⟩ := change.size_le s
    obtain ⟨hframes', hclosures'⟩ := ih (change.apply s)
    exact ⟨Nat.le_trans hframes hframes', Nat.le_trans hclosures hclosures'⟩

/-- The change at this place of the list makes the value, which is a function. -/
inductive Makes : Store α → List (Change α) → Nat → Value → Prop
  | here {s closure rest} : Makes s (.made closure :: rest) 0 (.function (s.close closure).1)
  | later {s change rest place value} : Makes (change.apply s) rest place value →
      Makes s (change :: rest) (place + 1) value

theorem Makes.exists_closure {s : Store α} {changes : List (Change α)} {place : Nat}
    {value : Value} (h : s.Makes changes place value) :
    ∃ closure, changes[place]? = some (.made closure) ∧
      value = .function ((s.replay (changes.take place)).close closure).1 ∧
      s.replay (changes.take (place + 1))
        = ((s.replay (changes.take place)).close closure).2 := by
  induction h with
  | @here s closure rest => exact ⟨closure, rfl, rfl, rfl⟩
  | later _ ih => exact ih

/-- A function is numbered above all that were made before it. -/
theorem Makes.exists_reference {s : Store α} {changes : List (Change α)} {place : Nat}
    {value : Value} (h : s.Makes changes place value) :
    ∃ r, value = .function r ∧ s.closures.size ≤ r := by
  induction h with
  | here => exact ⟨_, rfl, Nat.le_refl _⟩
  | @later s change _ _ _ _ ih =>
    obtain ⟨r, hvalue, hr⟩ := ih
    exact ⟨r, hvalue, Nat.le_trans (change.size_le s).2 hr⟩

theorem Makes.not_later {s : Store α} {closure : Closure α} {rest : List (Change α)} {place : Nat}
    (h : ((Change.made closure).apply s).Makes rest place (.function (s.close closure).1)) :
    False := by
  obtain ⟨r, hvalue, hr⟩ := h.exists_reference
  cases hvalue
  simp only [Change.apply, close, Array.size_push] at hr
  omega

/-- No two changes make the same function. -/
theorem Makes.place_eq {s : Store α} {changes : List (Change α)} {i j : Nat} {value : Value}
    (hi : s.Makes changes i value) (hj : s.Makes changes j value) : i = j := by
  induction hi generalizing j with
  | here =>
    cases hj with
    | here => rfl
    | later hlater => exact hlater.not_later.elim
  | later hrest ih =>
    cases hj with
    | here => exact hrest.not_later.elim
    | later hlater => exact congrArg Nat.succ (ih hlater)

/-- One change makes one function. -/
theorem Makes.value_eq {s : Store α} {changes : List (Change α)} {place : Nat} {v w : Value}
    (hv : s.Makes changes place v) (hw : s.Makes changes place w) : v = w := by
  induction hv with
  | here =>
    cases hw
    rfl
  | later _ ih =>
    cases hw with
    | later hlater => exact ih hlater

/-- Every function that was not there at the start was made by one of the changes. -/
theorem exists_makes {s : Store α} {changes : List (Change α)} {r : Nat}
    (hstart : s.closures.size ≤ r) (hr : r < (s.replay changes).closures.size) :
    ∃ place, s.Makes changes place (.function r) := by
  induction changes generalizing s with
  | nil => exact absurd hr (Nat.not_lt.mpr hstart)
  | cons change rest ih =>
    by_cases hlater : (change.apply s).closures.size ≤ r
    · obtain ⟨place, hplace⟩ := ih hlater hr
      exact ⟨place + 1, .later hplace⟩
    · cases change with
      | made closure =>
        simp only [Change.apply, close, Array.size_push] at hlater
        obtain rfl : r = s.closures.size := by omega
        exact ⟨0, .here⟩
      | opened parent | bound frame name value | wrote text => exact absurd hstart hlater

end Store

end Scriptlet
