import Scriptlet.Evaluation.Run

/-! # Evaluation of expressions and statements

Everything is evaluated from left to right, in the frame that it stands in; only a call opens a new
frame. How a value is called is left to `call`.
-/

namespace Scriptlet.Grammar

variable {α : Type} (call : α → Value → List Value → Run α Value) (frame : Nat)

mutual

def Expr.eval : Expr α → Run α Value
  | .int _ value => return .int value
  | .bool _ value => return .bool value
  | .name label name => Run.name label frame name
  | .string _ text => return .string text
  | .array _ elements => return .array (← evalAll elements)
  | .map _ entries => return .map (← evalEntries [] entries)
  | .unary label op operand => do
    let operand ← operand.eval
    Run.ofExcept label (operand.unary op)
  | .binary label op lhs rhs => do
    let lhs ← lhs.eval
    let rhs ← rhs.eval
    Run.ofExcept label (Value.binary op lhs rhs)
  | .branch _ condition consequence alternative => do
    let condition ← condition.eval
    if condition.isTruthy then consequence.eval else evalAlternative alternative
  | .function _ parameters body => Run.close ⟨parameters, body, frame⟩
  | .call label callee arguments => do
    let callee ← callee.eval
    let arguments ← evalAll arguments
    call label callee arguments
  | .index label collection position => do
    let collection ← collection.eval
    let position ← position.eval
    Run.ofExcept label (collection.index position)

def evalAll : List (Expr α) → Run α (List Value)
  | [] => return []
  | expr :: rest => do
    let value ← expr.eval
    let values ← evalAll rest
    return value :: values

/-- Adds the entries to those of a map. A key is checked before its value is evaluated. -/
def evalEntries (known : List (Value.Key × Value)) :
    List (Expr α × Expr α) → Run α (List (Value.Key × Value))
  | [] => return known
  | (key, value) :: rest => do
    let position ← key.eval
    let position ← Run.ofExcept key.label position.toKey
    let value ← value.eval
    evalEntries (Entries.insert position value known) rest

def evalAlternative : Option (Block α) → Run α Value
  | none => return .null
  | some block => block.eval

/-- A block has no frame of its own. -/
def Block.eval : Block α → Run α Value
  | .mk _ body => evalStatements .null body

def Stmt.eval : Stmt α → Run α Value
  | .bind _ target value => do
    let value ← value.eval
    Run.declare frame target.name value
    return value
  | .leave _ none => throw (.returned .null)
  | .leave _ (some value) => do
    let value ← value.eval
    throw (.returned value)
  | .expr _ value => value.eval
  | .block inner => inner.eval

/-- The value of the last statement, or the given one if there is none. -/
def evalStatements (last : Value) : List (Stmt α) → Run α Value
  | [] => return last
  | stmt :: rest => do
    let value ← stmt.eval
    evalStatements value rest

end

end Scriptlet.Grammar
