import Scriptlet.CommandLine.Reply

/-! # The command line -/

namespace Scriptlet.CommandLine

/-- Reads and answers lines until the session or the input ends. -/
partial def converse (input output : IO.FS.Stream) (store : Store Token) : IO Unit := do
  output.putStr Repl.prompt
  output.flush
  let line ← input.getLine
  if line.isEmpty then return
  match Repl.answer? store line with
  | none => return
  | some (text, store) =>
    output.putStr text
    converse input output store

def print (reply : Reply) : IO UInt32 := do
  (← IO.getStdout).putStr reply.out
  (← IO.getStderr).putStr reply.err
  return reply.status.toUInt32

def execute (command : Command) : IO UInt32 := do
  match command.path? with
  | some path =>
    let source ← IO.FS.readFile path
    print (.ofCommand source "" command)
  | none =>
    if command = .repl then
      converse (← IO.getStdin) (← IO.getStdout) .initial
      return 0
    else print (.ofCommand "" "" command)

end Scriptlet.CommandLine

def main (arguments : List String) : IO UInt32 :=
  match Scriptlet.CommandLine.Command.ofArguments arguments with
  | some command => Scriptlet.CommandLine.execute command
  | none => Scriptlet.CommandLine.print .usage
