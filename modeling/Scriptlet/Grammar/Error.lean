import Scriptlet.Token.Basic

/-! # Errors of reading a program -/

namespace Scriptlet.Grammar

/-- What is wrong with the token at the place of the error. -/
inductive Problem where
  /-- Another kind of token belongs here; there is no `actual` one beyond the end of the stream. -/
  | unexpected (expected : Token.Kind) (actual : Option Token.Kind)
  /-- No expression starts with this kind of token. -/
  | noExpression (kind : Token.Kind)
  /-- The digits denote a number that is too large. -/
  | integerTooLarge (digits : String)
deriving DecidableEq, Repr

namespace Problem

def message : Problem → String
  | unexpected expected actual =>
    "Expected next token to be " ++ expected.name ++ " but was "
      ++ (actual.map (·.name)).getD "nothing"
  | noExpression kind => "No prefix parse function for " ++ kind.name ++ " found"
  | integerTooLarge digits => "Could not parse " ++ digits ++ " as integer"

def code : Problem → String
  | unexpected _ _ => "PE001"
  | noExpression _ => "PE002"
  | integerTooLarge _ => "PE003"

/-- What the reader is told at the place itself. -/
def advice : Problem → String
  | unexpected expected _ => "Expected " ++ expected.name ++ " here"
  | noExpression kind => kind.name ++ " can not start an expression"
  | integerTooLarge _ => "Does not fit in a 64-bit integer"

end Problem

structure Error where
  problem : Problem
  span : Span
deriving DecidableEq, Repr

def Error.message (error : Error) : String :=
  error.problem.message

end Scriptlet.Grammar
