import Scriptlet.Grammar.Program
import Scriptlet.Proofs.Stream

/-! # Trees with other labels

A tree keeps its shape when every label is replaced. A program that stands elsewhere in a text has
the same trees and errors, with the spans of that place.
-/

namespace Scriptlet.Grammar

variable {α β : Type}

def Ident.relabel (f : α → β) (ident : Ident α) : Ident β :=
  ⟨f ident.label, ident.name⟩

mutual

def Expr.relabel (f : α → β) : Expr α → Expr β
  | .int label value => .int (f label) value
  | .bool label value => .bool (f label) value
  | .name label name => .name (f label) name
  | .string label text => .string (f label) text
  | .array label elements => .array (f label) (relabelAll f elements)
  | .map label entries => .map (f label) (relabelEntries f entries)
  | .unary label op operand => .unary (f label) op (operand.relabel f)
  | .binary label op lhs rhs => .binary (f label) op (lhs.relabel f) (rhs.relabel f)
  | .branch label condition consequence alternative =>
    .branch (f label) (condition.relabel f) (consequence.relabel f)
      (relabelAlternative f alternative)
  | .function label parameters body =>
    .function (f label) (parameters.map (Ident.relabel f)) (body.relabel f)
  | .call label callee arguments =>
    .call (f label) (callee.relabel f) (relabelAll f arguments)
  | .index label collection position =>
    .index (f label) (collection.relabel f) (position.relabel f)

def relabelAll (f : α → β) : List (Expr α) → List (Expr β)
  | [] => []
  | expr :: rest => expr.relabel f :: relabelAll f rest

def relabelEntries (f : α → β) : List (Expr α × Expr α) → List (Expr β × Expr β)
  | [] => []
  | (key, value) :: rest => (key.relabel f, value.relabel f) :: relabelEntries f rest

def relabelAlternative (f : α → β) : Option (Block α) → Option (Block β)
  | none => none
  | some block => some (block.relabel f)

def Block.relabel (f : α → β) : Block α → Block β
  | .mk label body => .mk (f label) (relabelStatements f body)

def Stmt.relabel (f : α → β) : Stmt α → Stmt β
  | .bind label target value => .bind (f label) (target.relabel f) (value.relabel f)
  | .leave label none => .leave (f label) none
  | .leave label (some value) => .leave (f label) (some (value.relabel f))
  | .expr label value => .expr (f label) (value.relabel f)
  | .block inner => .block (inner.relabel f)

def relabelStatements (f : α → β) : List (Stmt α) → List (Stmt β)
  | [] => []
  | stmt :: rest => stmt.relabel f :: relabelStatements f rest

end

theorem relabelAll_eq_map (f : α → β) (values : List (Expr α)) :
    relabelAll f values = values.map (Expr.relabel f) := by
  induction values with
  | nil => rfl
  | cons first rest ih => rw [relabelAll, ih, List.map_cons]

theorem relabelEntries_eq_map (f : α → β) (entries : List (Expr α × Expr α)) :
    relabelEntries f entries = entries.map fun pair => (pair.1.relabel f, pair.2.relabel f) := by
  induction entries with
  | nil => rfl
  | cons first rest ih => rw [relabelEntries, ih, List.map_cons]

theorem relabelStatements_eq_map (f : α → β) (stmts : List (Stmt α)) :
    relabelStatements f stmts = stmts.map (Stmt.relabel f) := by
  induction stmts with
  | nil => rfl
  | cons first rest ih => rw [relabelStatements, ih, List.map_cons]

/-! ### The same labels -/

theorem Ident.relabel_id : Ident.relabel (id : α → α) = id := rfl

mutual

theorem Expr.relabel_id : ∀ expr : Expr α, expr.relabel id = expr
  | .int _ _ | .bool _ _ | .name _ _ | .string _ _ => rfl
  | .array _ elements => by rw [Expr.relabel, relabelAll_id elements, id]
  | .map _ entries => by rw [Expr.relabel, relabelEntries_id entries, id]
  | .unary _ _ operand => by rw [Expr.relabel, operand.relabel_id, id]
  | .binary _ _ lhs rhs => by rw [Expr.relabel, lhs.relabel_id, rhs.relabel_id, id]
  | .branch _ condition consequence alternative => by
    rw [Expr.relabel, condition.relabel_id, consequence.relabel_id,
      relabelAlternative_id alternative, id]
  | .function _ parameters body => by
    rw [Expr.relabel, Ident.relabel_id, List.map_id, body.relabel_id, id]
  | .call _ callee arguments => by
    rw [Expr.relabel, callee.relabel_id, relabelAll_id arguments, id]
  | .index _ collection position => by
    rw [Expr.relabel, collection.relabel_id, position.relabel_id, id]

theorem relabelAll_id : ∀ values : List (Expr α), relabelAll id values = values
  | [] => rfl
  | expr :: rest => by rw [relabelAll, expr.relabel_id, relabelAll_id rest]

theorem relabelEntries_id : ∀ entries : List (Expr α × Expr α), relabelEntries id entries = entries
  | [] => rfl
  | (key, value) :: rest => by
    rw [relabelEntries, key.relabel_id, value.relabel_id, relabelEntries_id rest]

theorem relabelAlternative_id : ∀ alternative : Option (Block α),
    relabelAlternative id alternative = alternative
  | none => rfl
  | some block => by rw [relabelAlternative, block.relabel_id]

theorem Block.relabel_id : ∀ block : Block α, block.relabel id = block
  | .mk _ body => by rw [Block.relabel, relabelStatements_id body, id]

theorem Stmt.relabel_id : ∀ stmt : Stmt α, stmt.relabel id = stmt
  | .bind _ _ value => by rw [Stmt.relabel, value.relabel_id, Ident.relabel_id, id, id]
  | .leave _ none => rfl
  | .leave _ (some value) => by rw [Stmt.relabel, value.relabel_id, id]
  | .expr _ value => by rw [Stmt.relabel, value.relabel_id, id]
  | .block inner => by rw [Stmt.relabel, inner.relabel_id]

theorem relabelStatements_id : ∀ stmts : List (Stmt α), relabelStatements id stmts = stmts
  | [] => rfl
  | stmt :: rest => by rw [relabelStatements, stmt.relabel_id, relabelStatements_id rest]

end

/-! ### Labels that are replaced twice -/

section Twice

variable {γ : Type} (f : α → β) (g : β → γ)

mutual

theorem Expr.relabel_relabel : ∀ expr : Expr α,
    (expr.relabel f).relabel g = expr.relabel fun label => g (f label)
  | .int _ _ | .bool _ _ | .name _ _ | .string _ _ => rfl
  | .array _ elements => by simp only [Expr.relabel, relabelAll_relabelAll elements]
  | .map _ entries => by simp only [Expr.relabel, relabelEntries_relabelEntries entries]
  | .unary _ _ operand => by simp only [Expr.relabel, operand.relabel_relabel]
  | .binary _ _ lhs rhs => by
    simp only [Expr.relabel, lhs.relabel_relabel, rhs.relabel_relabel]
  | .branch _ condition consequence alternative => by
    simp only [Expr.relabel, condition.relabel_relabel, consequence.relabel_relabel,
      relabelAlternative_relabelAlternative alternative]
  | .function _ parameters body => by
    simp only [Expr.relabel, body.relabel_relabel, List.map_map]
    rfl
  | .call _ callee arguments => by
    simp only [Expr.relabel, callee.relabel_relabel, relabelAll_relabelAll arguments]
  | .index _ collection position => by
    simp only [Expr.relabel, collection.relabel_relabel, position.relabel_relabel]

theorem relabelAll_relabelAll : ∀ values : List (Expr α),
    relabelAll g (relabelAll f values) = relabelAll (fun label => g (f label)) values
  | [] => rfl
  | expr :: rest => by simp only [relabelAll, expr.relabel_relabel, relabelAll_relabelAll rest]

theorem relabelEntries_relabelEntries : ∀ entries : List (Expr α × Expr α),
    relabelEntries g (relabelEntries f entries) = relabelEntries (fun label => g (f label)) entries
  | [] => rfl
  | (key, value) :: rest => by
    simp only [relabelEntries, key.relabel_relabel, value.relabel_relabel,
      relabelEntries_relabelEntries rest]

theorem relabelAlternative_relabelAlternative : ∀ alternative : Option (Block α),
    relabelAlternative g (relabelAlternative f alternative)
      = relabelAlternative (fun label => g (f label)) alternative
  | none => rfl
  | some block => by simp only [relabelAlternative, block.relabel_relabel]

theorem Block.relabel_relabel : ∀ block : Block α,
    (block.relabel f).relabel g = block.relabel fun label => g (f label)
  | .mk _ body => by simp only [Block.relabel, relabelStatements_relabelStatements body]

theorem Stmt.relabel_relabel : ∀ stmt : Stmt α,
    (stmt.relabel f).relabel g = stmt.relabel fun label => g (f label)
  | .bind _ _ value => by simp only [Stmt.relabel, Ident.relabel, value.relabel_relabel]
  | .leave _ none => rfl
  | .leave _ (some value) => by simp only [Stmt.relabel, value.relabel_relabel]
  | .expr _ value => by simp only [Stmt.relabel, value.relabel_relabel]
  | .block inner => by simp only [Stmt.relabel, inner.relabel_relabel]

theorem relabelStatements_relabelStatements : ∀ stmts : List (Stmt α),
    relabelStatements g (relabelStatements f stmts)
      = relabelStatements (fun label => g (f label)) stmts
  | [] => rfl
  | stmt :: rest => by
    simp only [relabelStatements, stmt.relabel_relabel, relabelStatements_relabelStatements rest]

end

end Twice

/-! ### Other spans -/

def Error.mapSpan (f : Span → Span) (error : Error) : Error :=
  { error with span := f error.span }

namespace Program

/-- The same program with its tokens and errors at other places. -/
def mapSpans (f : Span → Span) (program : Program Token) : Program Token where
  statements := program.statements.map (Stmt.relabel (Token.mapSpan f))
  errors := program.errors.map (Error.mapSpan f)

/-- One program behind the other. -/
instance : Append (Program α) where
  append first second :=
    ⟨first.statements ++ second.statements, first.errors ++ second.errors⟩

theorem append_empty (program : Program α) : program ++ ⟨[], []⟩ = program :=
  congrArg₂ Program.mk (List.append_nil _) (List.append_nil _)

theorem mapSpans_append (f : Span → Span) (first second : Program Token) :
    (first ++ second).mapSpans f = first.mapSpans f ++ second.mapSpans f :=
  congrArg₂ Program.mk List.map_append List.map_append

theorem mapSpans_id (program : Program Token) : program.mapSpans id = program := by
  have hlabel : Token.mapSpan id = id := rfl
  have hstmt : Stmt.relabel (id : Token → Token) = id := funext Stmt.relabel_id
  have herror : Error.mapSpan id = id := rfl
  simp only [mapSpans, hlabel, hstmt, herror, List.map_id]

end Program

end Scriptlet.Grammar
