/-! # Kinds of token -/

namespace Scriptlet.Token

inductive Kind where
  | illegal | eof
  | ident | int | string
  | assign | plus | minus | bang | star | slash | less | greater | equal | notEqual
  | comma | semicolon | colon
  | leftParen | rightParen | leftBracket | rightBracket | leftBrace | rightBrace
  | fnWord | letWord | trueWord | falseWord | ifWord | elseWord | returnWord
deriving DecidableEq, Repr

namespace Kind

/-- The name by which listings and messages call a kind. -/
def name : Kind → String
  | illegal => "ILLEGAL"
  | eof => "EOF"
  | ident => "IDENT"
  | int => "INT"
  | string => "STRING"
  | assign => "ASSIGN"
  | plus => "PLUS"
  | minus => "MINUS"
  | bang => "BANG"
  | star => "ASTERISK"
  | slash => "SLASH"
  | less => "LT"
  | greater => "GT"
  | equal => "EQ"
  | notEqual => "NOT_EQ"
  | comma => "COMMA"
  | semicolon => "SEMICOLON"
  | colon => "COLON"
  | leftParen => "LPAREN"
  | rightParen => "RPAREN"
  | leftBracket => "LBRACKET"
  | rightBracket => "RBRACKET"
  | leftBrace => "LBRACE"
  | rightBrace => "RBRACE"
  | fnWord => "FUNCTION"
  | letWord => "LET"
  | trueWord => "TRUE"
  | falseWord => "FALSE"
  | ifWord => "IF"
  | elseWord => "ELSE"
  | returnWord => "RETURN"

def keywords : List (String × Kind) :=
  [("fn", fnWord), ("let", letWord), ("true", trueWord), ("false", falseWord), ("if", ifWord),
    ("else", elseWord), ("return", returnWord)]

def keyword? (word : String) : Option Kind :=
  keywords.lookup word

/-- A word is a keyword or else an identifier. -/
def ofWord (word : String) : Kind :=
  (keyword? word).getD ident

/-- The tokens of one character that no other character can follow within the token. -/
def ofMark? : Char → Option Kind
  | ';' => some semicolon
  | ',' => some comma
  | ':' => some colon
  | '(' => some leftParen
  | ')' => some rightParen
  | '[' => some leftBracket
  | ']' => some rightBracket
  | '{' => some leftBrace
  | '}' => some rightBrace
  | '+' => some plus
  | '-' => some minus
  | '*' => some star
  | '/' => some slash
  | '<' => some less
  | '>' => some greater
  | _ => none

/-- The number of open braces after a token of this kind. A stray closing brace counts for nothing. -/
def depthAfter : Kind → Nat → Nat
  | leftBrace, depth => depth + 1
  | rightBrace, depth => depth - 1
  | _, depth => depth

end Kind

end Scriptlet.Token
