import Scriptlet.Value.Fault

/-! # Plain reports

An error on one line, after the number of the line of the source on which it starts.
-/

namespace Scriptlet

namespace Report

/-- Texts one after the other, each ended by a line feed. -/
def joinLines (texts : List String) : String :=
  String.join (texts.map fun text => if text.endsWith '\n' then text else text ++ "\n")

end Report

def Grammar.Error.plain (lines : Text.Lines) (error : Grammar.Error) : String :=
  lines.tag error.span.start.toNat ++ error.message

def Failure.plain (lines : Text.Lines) (failure : Failure) : String :=
  lines.tag failure.span.start.toNat ++ "ERROR: " ++ failure.fault.message

end Scriptlet
