import Scriptlet.Evaluation.Call
import Scriptlet.Report.Plain
import Scriptlet.Text.Blank

/-! # Interactive sessions

Each line that is entered is a program of its own. Bindings that one line makes are there for the
lines after it. The session ends with the line `exit`, or with the input.
-/

namespace Scriptlet.CommandLine

/-- How deeply calls may be nested. -/
def callLimit : Nat := 1000000

/-- What is printed in place of a result that calls nested too deeply leave out. -/
def tooDeep : String :=
  "Calls are nested too deeply\n"

namespace Repl

def prompt : String := ">> "

/-- What is printed for a program, and the store after it. -/
def evaluate (store : Store Token) (source : String) : String × Store Token :=
  let program := Grammar.Program.ofSource source
  if program.errors.isEmpty then
    match program.run callLimit Store.globalFrame { store with output := "" } with
    | some (.ok value, store) => (store.output ++ store.render value ++ "\n", store)
    | some (.error failure, store) =>
      (store.output ++ failure.plain (.ofString source) ++ "\n", store)
    | none => (tooDeep, store)
  else (String.join (program.errors.map fun error => "\t" ++ error.message ++ "\n"), store)

/-- Answers a line; there is no answer to the line that ends the session. -/
def answer? (store : Store Token) (line : String) : Option (String × Store Token) :=
  let source := String.ofList (Text.trimEnd line.toList)
  if source = "exit" then none else some (evaluate store source)

def transcript (store : Store Token) : List String → String
  | [] => prompt
  | line :: rest =>
    match answer? store line with
    | none => prompt
    | some (text, store) => prompt ++ text ++ transcript store rest

/-- The lines of an input, without their line feeds. No line follows the last line feed. -/
def linesOf (input : String) : List String :=
  let lines := (input.splitOn "\n")
  if lines.getLast? = some "" then lines.dropLast else lines

end Repl

end Scriptlet.CommandLine
