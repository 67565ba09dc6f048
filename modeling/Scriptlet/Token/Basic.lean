import Scriptlet.Token.Kind
import Scriptlet.Token.Span
import Scriptlet.Text.Lines

/-! # Tokens

A token is a kind, the literal text that goes with it, and its place in the source. The literal of a
string leaves out the quotes; its span includes them.
-/

namespace Scriptlet

structure Token where
  kind : Token.Kind
  literal : String
  span : Span
deriving DecidableEq, Repr

namespace Token

def eofAt (offset : Nat) : Token :=
  ⟨.eof, "", .ofBounds offset offset⟩

/-- A token as listings show it: its kind and its literal, with the quotes of a string. -/
def listed (token : Token) : String :=
  match token.kind with
  | .eof => token.kind.name
  | .string => token.kind.name ++ " \"" ++ token.literal ++ "\""
  | kind => kind.name ++ " " ++ token.literal

def listedWithLine (lines : Text.Lines) (token : Token) : String :=
  lines.tag token.span.start.toNat ++ token.listed

end Token

end Scriptlet
