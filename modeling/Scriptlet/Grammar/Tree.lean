import Scriptlet.Grammar.Operator

/-! # Syntax trees

Every node carries a label. A tree that was read from a source is labelled by tokens: an operator by
its sign, a literal by itself or its opening delimiter, a statement by its first token, a call by
its opening parenthesis and an index expression by its opening bracket.
-/

namespace Scriptlet.Grammar

/-- A name at a place that binds it. -/
structure Ident (α : Type) where
  label : α
  name : String
deriving DecidableEq, Repr

mutual

inductive Expr (α : Type) where
  | int (label : α) (value : Int64)
  | bool (label : α) (value : Bool)
  | name (label : α) (name : String)
  | string (label : α) (text : String)
  | array (label : α) (elements : List (Expr α))
  | map (label : α) (entries : List (Expr α × Expr α))
  | unary (label : α) (op : UnaryOp) (operand : Expr α)
  | binary (label : α) (op : BinaryOp) (lhs rhs : Expr α)
  | branch (label : α) (condition : Expr α) (consequence : Block α) (alternative : Option (Block α))
  | function (label : α) (parameters : List (Ident α)) (body : Block α)
  | call (label : α) (callee : Expr α) (arguments : List (Expr α))
  | index (label : α) (collection position : Expr α)

inductive Block (α : Type) where
  | mk (label : α) (body : List (Stmt α))

inductive Stmt (α : Type) where
  | bind (label : α) (target : Ident α) (value : Expr α)
  | leave (label : α) (value : Option (Expr α))
  | expr (label : α) (value : Expr α)
  | block (inner : Block α)

end

namespace Expr

variable {α : Type}

def label : Expr α → α
  | int label _ | bool label _ | name label _ | string label _ | array label _ | map label _
  | unary label _ _ | binary label _ _ _ | branch label _ _ _ | function label _ _
  | call label _ _ | index label _ _ => label

end Expr

namespace Block

variable {α : Type}

def label : Block α → α
  | mk label _ => label

def body : Block α → List (Stmt α)
  | mk _ body => body

end Block

namespace Stmt

variable {α : Type}

def label : Stmt α → α
  | bind label _ _ | leave label _ | expr label _ => label
  | block inner => inner.label

end Stmt

end Scriptlet.Grammar
