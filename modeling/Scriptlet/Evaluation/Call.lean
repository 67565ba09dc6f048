import Scriptlet.Evaluation.Expr

/-! # Calls

The body of a function is evaluated in a new frame inside the frame that the function was made in.
Calls may be nested as deeply as the limit allows.
-/

namespace Scriptlet

variable {α : Type}

namespace Run

def call : Nat → α → Value → List Value → Run α Value
  | _, site, .builtin builtin, arguments => Run.builtin site builtin arguments
  | limit, site, .function reference, arguments => do
    match (← get).closures[reference]? with
    | none => endless
    | some closure =>
      if closure.parameters.length ≠ arguments.length then
        throw (.failed (.wrongArity closure.parameters.length arguments.length) site)
      else
        match limit with
        | 0 => endless
        | limit + 1 => do
          let frame ← openFrame closure.frame
          declareAll frame (closure.parameters.zip arguments)
          untilReturn (closure.body.eval (call limit) frame)
  | _, site, value, _ => throw (.failed (.typeMismatch [.function] value.kind) site)

end Run

/-- The result of a run that nothing encloses. -/
def Interrupt.finish : Except (Interrupt Token) Value → Except Failure Value
  | .ok value | .error (.returned value) => .ok value
  | .error (.failed fault site) => .error ⟨fault, site.span⟩

/-- Runs to the end, from a store. -/
def Run.finish (run : Run Token Value) (store : Store Token) :
    Option (Except Failure Value × Store Token) := do
  let (result, store) ← run.run store
  return (Interrupt.finish result, store)

namespace Grammar

def Expr.run (limit frame : Nat) (expr : Expr Token) :
    Store Token → Option (Except Failure Value × Store Token) :=
  (expr.eval (Run.call limit) frame).finish

/-- Runs the statements of a program in a frame. A program with errors does not run at all, and fails
at the place of the first of them. -/
def Program.run (limit frame : Nat) (program : Program Token) (store : Store Token) :
    Option (Except Failure Value × Store Token) :=
  match program.errors with
  | [] => (evalStatements (Run.call limit) frame .null program.statements).finish store
  | first :: _ => some (.error ⟨.malformed program.errors, first.span⟩, store)

end Grammar

end Scriptlet
