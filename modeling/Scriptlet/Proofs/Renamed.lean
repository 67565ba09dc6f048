import Mathlib.Order.Monotone.Basic
import Scriptlet.Proofs.Effect
import Scriptlet.Proofs.Renaming

/-! # Stores with other numbers

Two stores may hold the same frames and closures under different numbers, and the second one may
hold others besides. A run goes the same way from both: what it makes gets the next free number in
either store, and apart from the numbers it ends in the same way.
-/

namespace Scriptlet

variable {α β γ δ ε : Type}

/-- Other numbers for frames and for closures. A frame made earlier keeps the smaller number. -/
structure Renaming where
  frame : Nat → Nat
  reference : Nat → Nat
  strictMono_frame : StrictMono frame
  injective_reference : Function.Injective reference

def Frame.rename (ρ : Renaming) (frame : Frame) : Frame :=
  ⟨Entries.mapValues (Value.rename ρ.reference) frame.bindings, frame.parent.map ρ.frame⟩

def Closure.rename (ρ : Renaming) (closure : Closure α) : Closure α :=
  { closure with frame := ρ.frame closure.frame }

namespace Store

/-- What the first store holds under a number, the second one holds under the number that it is
renamed to. The free numbers of the one are the free numbers of the other, in order. -/
structure Renamed (ρ : Renaming) (s t : Store α) : Prop where
  frames : ∀ id, t.frames[ρ.frame id]? = s.frames[id]?.map (Frame.rename ρ)
  closures : ∀ r, t.closures[ρ.reference r]? = s.closures[r]?.map (Closure.rename ρ)
  nextFrame : ∀ n, ρ.frame (s.frames.size + n) = t.frames.size + n
  nextReference : ∀ n, ρ.reference (s.closures.size + n) = t.closures.size + n

namespace Renamed

variable {ρ : Renaming} {s t : Store α} (h : s.Renamed ρ t)

include h

theorem chain (id : Nat) : t.chain (ρ.frame id) = (s.chain id).map (Frame.rename ρ) := by
  induction id using Nat.strongRecOn with
  | ind id ih =>
    rw [Store.chain, Store.chain, h.frames]
    cases s.frames[id]? with
    | none => rfl
    | some frame =>
      obtain ⟨bindings, parent⟩ := frame
      cases parent with
      | none => rfl
      | some parent =>
        simp only [Option.map_some, Frame.rename, ρ.strictMono_frame.lt_iff_lt, List.map_cons]
        split
        · next hlt => rw [ih parent hlt]
        · rfl

theorem lookup (id : Nat) (name : String) :
    t.lookup (ρ.frame id) name = (s.lookup id name).map (Value.rename ρ.reference) := by
  rw [Store.lookup, Store.lookup, h.chain, List.findSome?_map, List.map_findSome?]
  congr 1
  funext frame
  exact Entries.find?_mapValues _ name frame.bindings

theorem functionText (r : Nat) : t.functionText (ρ.reference r) = s.functionText r := by
  rw [Store.functionText, Store.functionText, h.closures, Option.map_map]
  rfl

theorem render (value : Value) : t.render (value.rename ρ.reference) = s.render value := by
  rw [Store.render, Store.render, Value.renderAs_rename, funext h.functionText]

/-! ### Changes of both stores -/

/-- What was written does not matter. -/
theorem withOutput (first second : String) :
    { s with output := first }.Renamed ρ { t with output := second } :=
  ⟨h.frames, h.closures, h.nextFrame, h.nextReference⟩

theorem openFrame (parent : Nat) :
    (t.openFrame (ρ.frame parent)).1 = ρ.frame (s.openFrame parent).1 ∧
      (s.openFrame parent).2.Renamed ρ (t.openFrame (ρ.frame parent)).2 := by
  have hnext : ρ.frame s.frames.size = t.frames.size := h.nextFrame 0
  refine ⟨hnext.symm, ?_, h.closures, ?_, h.nextReference⟩
  · intro id
    simp only [Store.openFrame, Array.getElem?_push, ← hnext, ρ.strictMono_frame.injective.eq_iff]
    split
    · rfl
    · exact h.frames id
  · intro n
    simp only [Store.openFrame, Array.size_push, Nat.add_assoc]
    exact h.nextFrame (1 + n)

theorem close (closure : Closure α) :
    (t.close (closure.rename ρ)).1 = ρ.reference (s.close closure).1 ∧
      (s.close closure).2.Renamed ρ (t.close (closure.rename ρ)).2 := by
  have hnext : ρ.reference s.closures.size = t.closures.size := h.nextReference 0
  refine ⟨hnext.symm, h.frames, ?_, h.nextFrame, ?_⟩
  · intro r
    simp only [Store.close, Array.getElem?_push, ← hnext, ρ.injective_reference.eq_iff]
    split
    · rfl
    · exact h.closures r
  · intro n
    simp only [Store.close, Array.size_push, Nat.add_assoc]
    exact h.nextReference (1 + n)

theorem declare (id : Nat) (name : String) (value : Value) :
    (s.declare id name value).Renamed ρ
      (t.declare (ρ.frame id) name (value.rename ρ.reference)) where
  frames other := by
    simp only [Store.declare, Array.getElem?_modify, ρ.strictMono_frame.injective.eq_iff, h.frames]
    split
    · cases s.frames[other]? with
      | none => rfl
      | some frame =>
        simp only [Option.map_some, Frame.rename, Entries.insert_mapValues]
    · rfl
  closures := h.closures
  nextFrame n := by
    simp only [Store.declare, Array.size_modify]
    exact h.nextFrame n
  nextReference := h.nextReference

end Renamed

end Store

end Scriptlet
