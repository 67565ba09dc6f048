import Scriptlet.Grammar.Render
import Scriptlet.Value.Render

/-! # Stores

The state of a run: the frames that names are bound in, the closures that function values refer to,
and the text written so far. Frames and closures are numbered in the order in which they were made
and are never removed. A name is looked up in a frame and then outward from frame to parent.
-/

namespace Scriptlet

structure Frame where
  bindings : List (String × Value)
  parent : Option Nat

/-- What one evaluation of a function literal made: the literal, and the frame it was made in. -/
structure Closure (α : Type) where
  parameters : List (Grammar.Ident α)
  body : Grammar.Block α
  frame : Nat

def Closure.render {α : Type} (closure : Closure α) : String :=
  "fn(" ++ ", ".intercalate (closure.parameters.map (·.name)) ++ ") " ++ closure.body.render

structure Store (α : Type) where
  frames : Array Frame
  closures : Array (Closure α)
  output : String

namespace Store

variable {α : Type}

/-- The store with one frame, which is empty. -/
def initial : Store α :=
  ⟨#[⟨[], none⟩], #[], ""⟩

def globalFrame : Nat := 0

/-- The frames from a number outward. A parent was made before its children. -/
def chain (store : Store α) (id : Nat) : List Frame :=
  match store.frames[id]? with
  | none => []
  | some frame =>
    frame :: match frame.parent with
      | none => []
      | some parent => if parent < id then store.chain parent else []
termination_by id

def lookup (store : Store α) (id : Nat) (name : String) : Option Value :=
  (store.chain id).findSome? fun frame => Entries.find? name frame.bindings

def isGlobal (store : Store α) (id : Nat) : Bool :=
  (store.frames[id]?.bind (·.parent)).isNone

/-- Makes a frame without bindings inside another one. -/
def openFrame (store : Store α) (parent : Nat) : Nat × Store α :=
  (store.frames.size, { store with frames := store.frames.push ⟨[], some parent⟩ })

def declare (store : Store α) (id : Nat) (name : String) (value : Value) : Store α :=
  { store with
    frames := store.frames.modify id fun frame =>
      { frame with bindings := Entries.insert name value frame.bindings } }

def close (store : Store α) (closure : Closure α) : Nat × Store α :=
  (store.closures.size, { store with closures := store.closures.push closure })

def write (store : Store α) (text : String) : Store α :=
  { store with output := store.output ++ text }

/-- The text of the function behind a reference. -/
def functionText (store : Store α) (reference : Nat) : String :=
  (store.closures[reference]?.map (·.render)).getD ""

def render (store : Store α) (value : Value) : String :=
  value.renderAs store.functionText true

end Store

end Scriptlet
