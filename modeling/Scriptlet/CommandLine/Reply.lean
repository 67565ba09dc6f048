import Scriptlet.CommandLine.Command
import Scriptlet.CommandLine.Repl
import Scriptlet.Inspect.Grammar
import Scriptlet.Report.Explained
import Scriptlet.Report.Plain

/-! # Replies to commands

What a command prints and the status that it exits with: 65 if the source is not a valid program, 70
if the program fails.
-/

namespace Scriptlet.CommandLine

structure Reply where
  status : UInt8
  out : String
  err : String
deriving DecidableEq, Repr

namespace Reply

def success (out : String) : Reply :=
  ⟨0, out, ""⟩

def invalidStatus : UInt8 := 65

def failureStatus : UInt8 := 70

def usageStatus : UInt8 := 2

def tokenText (format : TokenFormat) (source : String) : Token → String :=
  match format with
  | .debug => fun token => token.inspect.inline
  | .basic => Token.listed
  | .line => Token.listedWithLine (.ofString source)

def tokenize (format : TokenFormat) (source : String) : Reply :=
  let tokens := Token.stream source
  let out := String.join (tokens.map fun token => tokenText format source token ++ "\n")
  if tokens.any (·.kind = .illegal) then ⟨invalidStatus, out, ""⟩ else success out

def programText (format : ProgramFormat) (program : Grammar.Program Token) : String :=
  match format with
  | .debug => program.inspect.multiline
  | .basic => program.render

def errorText (format : ProgramFormat) (source : String) : Grammar.Error → String :=
  match format with
  | .debug => fun error => error.inspect.inline
  | .basic => Grammar.Error.plain (.ofString source)

def parse (format : ProgramFormat) (source : String) : Reply :=
  let program := Grammar.Program.ofSource source
  if program.errors.isEmpty then success (programText format program ++ "\n")
  else ⟨invalidStatus, "", Report.joinLines (program.errors.map (errorText format source))⟩

def errorReport (format : ReportFormat) (path source : String) (error : Grammar.Error) : String :=
  match format with
  | .basic => error.plain (.ofString source)
  | .pretty => error.framed.render path source

def failureReport (format : ReportFormat) (path source : String) (failure : Failure) : String :=
  match format with
  | .basic => failure.plain (.ofString source)
  | .pretty => failure.framed.render path source

/-- The value of the program is not printed. -/
def run (format : ReportFormat) (path source : String) : Reply :=
  let program := Grammar.Program.ofSource source
  if program.errors.isEmpty then
    match program.run callLimit Store.globalFrame .initial with
    | some (.ok _, store) => success store.output
    | some (.error failure, store) =>
      ⟨failureStatus, store.output, failureReport format path source failure ++ "\n"⟩
    | none => ⟨failureStatus, "", tooDeep⟩
  else
    ⟨invalidStatus, "", Report.joinLines (program.errors.map (errorReport format path source))⟩

def version : Reply :=
  success "monkey 1.0.0\n"

def usage : Reply :=
  ⟨usageStatus, "", "Usage: monkey <tokenize|parse|run> [--format FORMAT] PATH\n"
    ++ "       monkey repl\n"⟩

/-- The reply to a command that reads `source`, or enters `input` line by line. -/
def ofCommand (source input : String) : Command → Reply
  | .tokenize _ format => tokenize format source
  | .parse _ format => parse format source
  | .run path format => run format path source
  | .repl => success (Repl.transcript .initial (Repl.linesOf input))
  | .version => version

end Reply

end Scriptlet.CommandLine
