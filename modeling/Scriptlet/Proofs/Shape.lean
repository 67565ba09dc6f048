import Scriptlet.Proofs.Unambiguous

/-! # Code without its labels

What a tree is without its labels decides what it is but for them. And the code of a text is known
without its labels if it is legible and looks like other legible code.
-/

namespace Scriptlet.Grammar

variable {α : Type}

/-! ### Code of texts -/

theorem proper_ident_iff {name : String} :
    Token.Word.Proper (.ident, name) ↔
      name ≠ "" ∧ name.toList.all Token.Lexeme.isWordChar = true ∧
        Token.Kind.keyword? name = none := by
  simp [Token.Word.Proper]

instance Node.decidableLegible : ∀ node : Node α, Decidable node.Legible
  | .expr (.int _ value) => inferInstanceAs (Decidable (0 ≤ value.toInt))
  | .expr (.name _ _) => decidable_of_iff _ proper_ident_iff.symm
  | .expr (.string _ text) => inferInstanceAs (Decidable ('"' ∉ text.toList))
  | .expr (.bool _ _) | .expr (.array _ _) | .expr (.map _ _) | .expr (.unary _ _ _)
  | .expr (.binary _ _ _ _) | .expr (.branch _ _ _ _) | .expr (.function _ _ _)
  | .expr (.call _ _ _) | .expr (.index _ _ _) | .stmt (.bind _ _ _) | .stmt (.leave _ _)
  | .stmt (.expr _ _) => isTrue trivial
  | .stmt (.block _) => isFalse not_false
  | .binder _ => decidable_of_iff _ proper_ident_iff.symm

/-- A text is known to have this code by what it looks like. -/
theorem bareStatements_eq_singleton {source : String} {stmt : Stmt Unit}
    (hstmt : (stmt.relabel fun _ => Token.eofAt 0).Legible)
    (h : (Program.ofSource source).errors = [] ∧
      (Program.ofSource source).statements.map Stmt.render
        = [stmt.relabel fun _ => Token.eofAt 0].map Stmt.render) :
    bareStatements source = [stmt] := by
  have hlegible : ∀ part ∈ (Program.ofSource source).statements, part.Legible :=
    fun part hpart node hnode =>
      Program.legible_ofSource h.1 node (mem_nodesOfStatements hpart hnode)
  rw [bareStatements, relabelStatements_eq_of_render hlegible
    (List.forall_mem_singleton.mpr hstmt) h.2, relabelStatements, relabelStatements,
    Stmt.relabel_relabel]
  exact relabelStatements_id [stmt]

/-! ### Trees that are the same without their labels -/

theorem Ident.bare_eq_iff {ident : Ident α} {name : String} :
    ident.relabel (fun _ => ()) = ⟨(), name⟩ ↔ ∃ label, ident = ⟨label, name⟩ := by
  obtain ⟨label, other⟩ := ident
  simp [Ident.relabel]

theorem relabelAll_bare_eq_nil_iff {values : List (Expr α)} :
    relabelAll (fun _ => ()) values = [] ↔ values = [] := by
  cases values <;> simp [relabelAll]

theorem relabelAll_bare_eq_cons_iff {values : List (Expr α)} {first : Expr Unit}
    {rest : List (Expr Unit)} :
    relabelAll (fun _ => ()) values = first :: rest ↔
      ∃ value, value.relabel (fun _ => ()) = first ∧
        ∃ others, relabelAll (fun _ => ()) others = rest ∧ values = value :: others := by
  cases values <;> simp [relabelAll]

theorem relabelStatements_bare_eq_nil_iff {stmts : List (Stmt α)} :
    relabelStatements (fun _ => ()) stmts = [] ↔ stmts = [] := by
  cases stmts <;> simp [relabelStatements]

theorem relabelStatements_bare_eq_cons_iff {stmts : List (Stmt α)} {first : Stmt Unit}
    {rest : List (Stmt Unit)} :
    relabelStatements (fun _ => ()) stmts = first :: rest ↔
      ∃ stmt, stmt.relabel (fun _ => ()) = first ∧
        ∃ others, relabelStatements (fun _ => ()) others = rest ∧ stmts = stmt :: others := by
  cases stmts <;> simp [relabelStatements]

theorem relabelAlternative_bare_eq_some_iff {alternative : Option (Block α)} {block : Block Unit} :
    relabelAlternative (fun _ => ()) alternative = some block ↔
      ∃ inner, inner.relabel (fun _ => ()) = block ∧ alternative = some inner := by
  cases alternative <;> simp [relabelAlternative]

namespace Expr

variable {expr : Expr α}

theorem bare_eq_int_iff {value : Int64} :
    expr.relabel (fun _ => ()) = .int () value ↔ ∃ label, expr = .int label value := by
  cases expr <;> simp [Expr.relabel]

theorem bare_eq_name_iff {name : String} :
    expr.relabel (fun _ => ()) = .name () name ↔ ∃ label, expr = .name label name := by
  cases expr <;> simp [Expr.relabel]

theorem bare_eq_array_iff {elements : List (Expr Unit)} :
    expr.relabel (fun _ => ()) = .array () elements ↔
      ∃ parts, relabelAll (fun _ => ()) parts = elements ∧ ∃ label, expr = .array label parts := by
  cases expr <;> simp [Expr.relabel]

theorem bare_eq_binary_iff {op : BinaryOp} {lhs rhs : Expr Unit} :
    expr.relabel (fun _ => ()) = .binary () op lhs rhs ↔
      ∃ left, left.relabel (fun _ => ()) = lhs ∧ ∃ right, right.relabel (fun _ => ()) = rhs ∧
        ∃ label, expr = .binary label op left right := by
  cases expr <;> simp [Expr.relabel, and_comm, and_assoc]

theorem bare_eq_branch_iff {condition : Expr Unit} {consequence : Block Unit}
    {alternative : Option (Block Unit)} :
    expr.relabel (fun _ => ()) = .branch () condition consequence alternative ↔
      ∃ test, test.relabel (fun _ => ()) = condition ∧
        ∃ first, first.relabel (fun _ => ()) = consequence ∧
          ∃ second, relabelAlternative (fun _ => ()) second = alternative ∧
            ∃ label, expr = .branch label test first second := by
  cases expr <;> simp [Expr.relabel]

theorem bare_eq_function_iff {parameters : List (Ident Unit)} {body : Block Unit} :
    expr.relabel (fun _ => ()) = .function () parameters body ↔
      ∃ idents, idents.map (Ident.relabel fun _ => ()) = parameters ∧
        ∃ block, block.relabel (fun _ => ()) = body ∧
          ∃ label, expr = .function label idents block := by
  cases expr <;> simp [Expr.relabel]

theorem bare_eq_call_iff {callee : Expr Unit} {arguments : List (Expr Unit)} :
    expr.relabel (fun _ => ()) = .call () callee arguments ↔
      ∃ function, function.relabel (fun _ => ()) = callee ∧
        ∃ values, relabelAll (fun _ => ()) values = arguments ∧
          ∃ label, expr = .call label function values := by
  cases expr <;> simp [Expr.relabel]

end Expr

theorem Block.bare_eq_iff {block : Block α} {body : List (Stmt Unit)} :
    block.relabel (fun _ => ()) = .mk () body ↔
      ∃ stmts, relabelStatements (fun _ => ()) stmts = body ∧ ∃ label, block = .mk label stmts := by
  cases block
  simp [Block.relabel]

theorem Stmt.bare_eq_expr_iff {stmt : Stmt α} {value : Expr Unit} :
    stmt.relabel (fun _ => ()) = .expr () value ↔
      ∃ expr, expr.relabel (fun _ => ()) = value ∧ ∃ label, stmt = .expr label expr := by
  rcases stmt with _ | ⟨_, _ | _⟩ | _ | _ <;> simp [Stmt.relabel]

theorem Stmt.bare_eq_bind_iff {stmt : Stmt α} {target : Ident Unit} {value : Expr Unit} :
    stmt.relabel (fun _ => ()) = .bind () target value ↔
      ∃ ident, ident.relabel (fun _ => ()) = target ∧
        ∃ expr, expr.relabel (fun _ => ()) = value ∧ ∃ label, stmt = .bind label ident expr := by
  rcases stmt with _ | ⟨_, _ | _⟩ | _ | _ <;> simp [Stmt.relabel]

end Scriptlet.Grammar
