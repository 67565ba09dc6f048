import Scriptlet.Grammar.Program

/-! # Canonical text of syntax trees

Operators are written with their operands in parentheses, an index expression is written in
parentheses as a whole, and everything else is written with single blanks and without the
parentheses it may have had.
-/

namespace Scriptlet.Grammar

variable {α : Type}

mutual

def Expr.render : Expr α → String
  | .int _ value => toString value.toInt
  | .bool _ value => toString value
  | .name _ name => name
  | .string _ text => "\"" ++ text ++ "\""
  | .array _ elements => "[" ++ ", ".intercalate (renderAll elements) ++ "]"
  | .map _ entries => "\x7b" ++ ", ".intercalate (renderEntries entries) ++ "\x7d"
  | .unary _ op operand => "(" ++ op.symbol ++ operand.render ++ ")"
  | .binary _ op lhs rhs => "(" ++ lhs.render ++ " " ++ op.symbol ++ " " ++ rhs.render ++ ")"
  | .branch _ condition consequence alternative =>
    "if " ++ condition.render ++ " " ++ consequence.render ++ renderAlternative alternative
  | .function _ parameters body =>
    "fn(" ++ ", ".intercalate (parameters.map (·.name)) ++ ") " ++ body.render
  | .call _ callee arguments =>
    callee.render ++ "(" ++ ", ".intercalate (renderAll arguments) ++ ")"
  | .index _ collection position => "(" ++ collection.render ++ "[" ++ position.render ++ "])"

def renderAll : List (Expr α) → List String
  | [] => []
  | expr :: rest => expr.render :: renderAll rest

def renderEntries : List (Expr α × Expr α) → List String
  | [] => []
  | (key, value) :: rest => (key.render ++ ": " ++ value.render) :: renderEntries rest

def renderAlternative : Option (Block α) → String
  | none => ""
  | some block => " else " ++ block.render

def Block.render : Block α → String
  | .mk _ [] => "\x7b \x7d"
  | .mk _ (first :: rest) =>
    "\x7b " ++ "; ".intercalate (first.render :: renderStatements rest) ++ " \x7d"

def Stmt.render : Stmt α → String
  | .bind _ target value => "let " ++ target.name ++ " = " ++ value.render
  | .leave _ none => "return"
  | .leave _ (some value) => "return " ++ value.render
  | .expr _ value => value.render
  | .block inner => inner.render

def renderStatements : List (Stmt α) → List String
  | [] => []
  | stmt :: rest => stmt.render :: renderStatements rest

end

def Program.render (program : Program α) : String :=
  "\n".intercalate (renderStatements program.statements)

end Scriptlet.Grammar
