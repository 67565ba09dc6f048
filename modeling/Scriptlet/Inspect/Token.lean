import Scriptlet.Inspect.Document
import Scriptlet.Token.Basic

/-! # Structure of tokens -/

namespace Scriptlet

open Inspect

namespace Token.Kind

def constructorName : Kind → String
  | illegal => "Illegal"
  | eof => "Eof"
  | ident => "Ident"
  | int => "IntegerLiteral"
  | string => "StringLiteral"
  | assign => "Assign"
  | plus => "Plus"
  | minus => "Minus"
  | bang => "Bang"
  | star => "Star"
  | slash => "Slash"
  | less => "LessThan"
  | greater => "GreaterThan"
  | equal => "EqualEqual"
  | notEqual => "BangEqual"
  | comma => "Comma"
  | semicolon => "Semicolon"
  | colon => "Colon"
  | leftParen => "LeftParenthesis"
  | rightParen => "RightParenthesis"
  | leftBracket => "LeftBracket"
  | rightBracket => "RightBracket"
  | leftBrace => "LeftBrace"
  | rightBrace => "RightBrace"
  | fnWord => "KeywordFn"
  | letWord => "KeywordLet"
  | trueWord => "KeywordTrue"
  | falseWord => "KeywordFalse"
  | ifWord => "KeywordIf"
  | elseWord => "KeywordElse"
  | returnWord => "KeywordReturn"

def inspect (kind : Kind) : Document :=
  .atom kind.constructorName

end Token.Kind

def Span.inspect (span : Span) : Document :=
  .fields "Span" [("start", .apply "SpanIndex" [.atom (toString span.start.toNat)]),
    ("length", .apply "SpanLength" [.atom (toString span.length.toNat)])]

def Token.inspect (token : Token) : Document :=
  .fields "Token" [("kind", token.kind.inspect), ("literal", .string token.literal),
    ("span", token.span.inspect)]

end Scriptlet
