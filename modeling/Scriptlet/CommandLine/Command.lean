/-! # Commands

The commands of the command line and the formats that they print in. A format stands before or after
the path of the source.
-/

namespace Scriptlet.CommandLine

inductive TokenFormat where
  | debug | basic | line
deriving DecidableEq, Repr

inductive ProgramFormat where
  | debug | basic
deriving DecidableEq, Repr

inductive ReportFormat where
  | basic | pretty
deriving DecidableEq, Repr

def TokenFormat.ofName? : String → Option TokenFormat
  | "debug" => some debug
  | "basic" => some basic
  | "line" => some line
  | _ => none

def ProgramFormat.ofName? : String → Option ProgramFormat
  | "debug" => some debug
  | "basic" => some basic
  | _ => none

def ReportFormat.ofName? : String → Option ReportFormat
  | "basic" => some basic
  | "pretty" => some pretty
  | _ => none

inductive Command where
  | tokenize (path : String) (format : TokenFormat)
  | parse (path : String) (format : ProgramFormat)
  | run (path : String) (format : ReportFormat)
  | repl
  | version
deriving DecidableEq, Repr

structure Options where
  path : Option String
  format : Option String

namespace Options

def setPath (path : String) (options : Options) : Option Options :=
  if options.path.isNone then some { options with path := some path } else none

def setFormat (format : String) (options : Options) : Option Options :=
  if options.format.isNone then some { options with format := some format } else none

/-- Adds the options that the arguments give. Nothing may be given twice. -/
def addAll (options : Options) : List String → Option Options
  | [] => some options
  | "--format" :: format :: rest => (options.setFormat format).bind (addAll · rest)
  | argument :: rest =>
    if argument.startsWith "--format=" then
      (options.setFormat (argument.drop 9).toString).bind (addAll · rest)
    else if argument.startsWith "-" then none
    else (options.setPath argument).bind (addAll · rest)

def ofArguments (arguments : List String) : Option Options :=
  addAll ⟨none, none⟩ arguments

/-- The path, and the format by its name or else the default. -/
def resolve {φ : Type} (ofName? : String → Option φ) (default : φ) (options : Options) :
    Option (String × φ) := do
  let path ← options.path
  let format ← match options.format with
    | none => some default
    | some name => ofName? name
  return (path, format)

end Options

namespace Command

def ofArguments : List String → Option Command
  | ["--version"] | ["-V"] => some version
  | ["repl"] => some repl
  | "tokenize" :: rest => do
    let (path, format) ← (← Options.ofArguments rest).resolve TokenFormat.ofName? .basic
    return tokenize path format
  | "parse" :: rest => do
    let (path, format) ← (← Options.ofArguments rest).resolve ProgramFormat.ofName? .basic
    return parse path format
  | "run" :: rest => do
    let (path, format) ← (← Options.ofArguments rest).resolve ReportFormat.ofName? .pretty
    return run path format
  | _ => none

/-- The file that a command reads its source from. -/
def path? : Command → Option String
  | tokenize path _ | parse path _ | run path _ => some path
  | repl | version => none

end Command

end Scriptlet.CommandLine
