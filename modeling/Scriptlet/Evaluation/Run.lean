import Scriptlet.Store
import Scriptlet.Value.Builtin
import Scriptlet.Value.Operator

/-! # Runs

A run changes a store and ends with a value or with an interrupt, which passes through everything
that is still to be evaluated. A run that calls more deeply than it is allowed to has no end, and
neither has one that follows a reference to no closure.
-/

namespace Scriptlet

/-- What ends a sequence of statements early. A return goes as far as the call that it is in. -/
inductive Interrupt (α : Type) where
  | returned (value : Value)
  | failed (fault : Fault) (site : α)

abbrev Run (α β : Type) :=
  ExceptT (Interrupt α) (StateT (Store α) Option) β

namespace Run

variable {α β : Type}

def endless : Run α β :=
  ExceptT.mk fun _ => none

/-- A result of an operation at a site of the program. -/
def ofExcept (site : α) : Except Fault β → Run α β
  | .ok value => pure value
  | .error fault => throw (.failed fault site)

/-- The value of a name in a frame. A name that no frame binds may be a built-in function. -/
def name (site : α) (frame : Nat) (name : String) : Run α Value := do
  match (← get).lookup frame name with
  | some value => return value
  | none =>
    match Value.Builtin.ofName? name with
    | some builtin => return .builtin builtin
    | none => throw (.failed (.unknownName name) site)

def close (closure : Closure α) : Run α Value := do
  let (reference, store) := (← get).close closure
  set store
  return .function reference

def openFrame (parent : Nat) : Run α Nat := do
  let (frame, store) := (← get).openFrame parent
  set store
  return frame

def declare (frame : Nat) (name : String) (value : Value) : Run α Unit :=
  modify fun store => store.declare frame name value

/-- Binds each parameter to the argument in its place, in order. -/
def declareAll (frame : Nat) : List (Grammar.Ident α × Value) → Run α Unit
  | [] => pure ()
  | (parameter, argument) :: rest => do
    declare frame parameter.name argument
    declareAll frame rest

/-- Calls a built-in function. All of them leave the store as it is, but `puts` writes its arguments,
each on a line of its own. -/
def builtin (site : α) (builtin : Value.Builtin) (arguments : List Value) : Run α Value := do
  if builtin = .puts then
    modify fun store => store.write (String.join (arguments.map (store.render · ++ "\n")))
  ofExcept site (builtin.call arguments)

/-- A return ends here. -/
def untilReturn (run : Run α Value) : Run α Value :=
  tryCatch run fun
    | .returned value => return value
    | .failed fault site => throw (.failed fault site)

end Run

end Scriptlet
