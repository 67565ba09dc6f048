import Scriptlet.Grammar.Program
import Scriptlet.Inspect.Token

/-! # Structure of programs -/

namespace Scriptlet.Grammar

open Inspect

def UnaryOp.inspect : UnaryOp → Document
  | not => .atom "Bang"
  | negate => .atom "Minus"

def BinaryOp.inspect : BinaryOp → Document
  | multiply => .atom "Multiply"
  | divide => .atom "Divide"
  | add => .atom "Add"
  | subtract => .atom "Subtract"
  | less => .atom "LessThan"
  | greater => .atom "GreaterThan"
  | equal => .atom "EqualEqual"
  | notEqual => .atom "BangEqual"

def Ident.inspect (ident : Ident Token) : Document :=
  .fields "Ident" [("name", .string ident.name), ("span", ident.label.span.inspect)]

/-- An expression with the token that it is labelled by. -/
def inspectNode (label : Token) (node : Document) : Document :=
  .fields "Expression" [("node", node), ("token", label.inspect)]

def inspectAtom (label : Token) (constructor : String) (argument : Document) : Document :=
  inspectNode label (.apply "Atom" [.apply constructor [argument]])

def inspectBlock (label : Token) (body : List Document) : Document :=
  .fields "BlockStatement" [("token", label.inspect), ("body", .list body)]

def inspectFunction (parameters : List (Ident Token)) (body : Document) : Document :=
  .fields "FunctionLiteral" [("parameters", .list (parameters.map Ident.inspect)), ("body", body)]

mutual

def Expr.inspect : Expr Token → Document
  | .int label value => inspectAtom label "Integer" (.atom (toString value.toInt))
  | .bool label value => inspectAtom label "Bool" (.atom (toString value))
  | .name label name => inspectAtom label "Identifier" (.string name)
  | .string label text => inspectAtom label "StringLiteral" (.string text)
  | .array label elements =>
    inspectNode label (.fields "Array" [("elements", .list (inspectAll elements))])
  | .map label entries =>
    inspectNode label (.fields "Map" [("pairs", .list (inspectEntries entries))])
  | .unary label op operand =>
    inspectNode label (.fields "Prefix" [("operator", op.inspect), ("rhs", operand.inspect)])
  | .binary label op lhs rhs =>
    inspectNode label
      (.fields "Infix" [("operator", op.inspect), ("lhs", lhs.inspect), ("rhs", rhs.inspect)])
  | .branch label condition consequence alternative =>
    inspectNode label
      (.fields "If" [("condition", condition.inspect), ("consequence", consequence.inspect),
        ("alternative", .option (inspectAlternative alternative))])
  | .function label parameters body =>
    inspectNode label (.apply "Function" [inspectFunction parameters body.inspect])
  | .call label callee arguments =>
    inspectNode label
      (.fields "Call" [("callee", callee.inspect), ("arguments", .list (inspectAll arguments))])
  | .index label collection position =>
    inspectNode label
      (.fields "Index" [("collection", collection.inspect), ("index", position.inspect)])

def inspectAll : List (Expr Token) → List Document
  | [] => []
  | expr :: rest => expr.inspect :: inspectAll rest

def inspectEntries : List (Expr Token × Expr Token) → List Document
  | [] => []
  | (key, value) :: rest => .pair key.inspect value.inspect :: inspectEntries rest

def inspectAlternative : Option (Block Token) → Option Document
  | none => none
  | some block => some block.inspect

def Block.inspect : Block Token → Document
  | .mk label body => inspectBlock label (inspectStatements body)

def Stmt.inspect : Stmt Token → Document
  | .bind label target value =>
    .apply "Let" [.fields "LetStatement"
      [("token", label.inspect), ("name", target.inspect), ("value", value.inspect)]]
  | .leave label none =>
    .apply "Return" [.fields "ReturnStatement"
      [("token", label.inspect), ("value", .option none)]]
  | .leave label (some value) =>
    .apply "Return" [.fields "ReturnStatement"
      [("token", label.inspect), ("value", .option (some value.inspect))]]
  | .expr label value =>
    .apply "Expression" [.fields "ExpressionStatement"
      [("token", label.inspect), ("expr", value.inspect)]]
  | .block inner => .apply "Block" [inner.inspect]

def inspectStatements : List (Stmt Token) → List Document
  | [] => []
  | stmt :: rest => stmt.inspect :: inspectStatements rest

end

def Problem.inspect : Problem → Document
  | unexpected expected actual =>
    .fields "UnexpectedToken"
      [("expected", expected.inspect), ("actual", .option (actual.map (·.inspect)))]
  | noExpression kind => .apply "NonExpression" [kind.inspect]
  | integerTooLarge digits => .apply "InvalidInteger" [.string digits]

def Error.inspect (error : Error) : Document :=
  .fields "ParserError" [("kind", error.problem.inspect), ("span", error.span.inspect)]

def Program.inspect (program : Program Token) : Document :=
  .fields "Program" [("statements", .list (inspectStatements program.statements)),
    ("errors", .list (program.errors.map Error.inspect))]

end Scriptlet.Grammar
