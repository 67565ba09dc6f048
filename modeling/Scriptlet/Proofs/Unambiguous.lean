import Scriptlet.Proofs.Constructs
import Scriptlet.Proofs.Quotes
import Scriptlet.Proofs.Session

/-! # Canonical text has one tree

Two trees with the same canonical text are the same tree but for their labels. The words of a tree
tell where it ends, if what follows them could not belong to it: a call could go on with another
parenthesis, a conditional with an `else`, and a bare `return` with an expression.
-/

namespace Scriptlet.Grammar

open List (forall_mem_append forall_mem_cons)

variable {α : Type}

/-! ### Trees -/

mutual

/-- By induction on the tree, where each construct is told from its parts. Calls of calls are told
by their root, as the text of a callee does not tell how many groups of arguments follow it. -/
theorem Expr.rooted : ∀ expr : Expr α, expr.Legible → expr.Rooted
  | .int _ _, h => .int (h _ List.mem_cons_self)
  | .bool _ value, _ => .bool value
  | .name _ name, _ => .name name
  | .string _ text, _ => .string text
  | .array _ elements, h => .array (unambiguousAll elements (forall_mem_cons.mp h).2)
  | .map _ entries, h => .map (unambiguousEntries entries (forall_mem_cons.mp h).2)
  | .unary _ op operand, h => .unary op (operand.rooted (forall_mem_cons.mp h).2).unambiguous
  | .binary _ op lhs rhs, h => by
    obtain ⟨hlhs, hrhs⟩ := forall_mem_append.mp (forall_mem_cons.mp h).2
    exact .binary op (lhs.rooted hlhs).unambiguous (rhs.rooted hrhs).unambiguous
  | .index _ collection position, h => by
    obtain ⟨hcollection, hposition⟩ := forall_mem_append.mp (forall_mem_cons.mp h).2
    exact .index (collection.rooted hcollection).unambiguous (position.rooted hposition).unambiguous
  | .branch _ condition consequence alternative, h => by
    obtain ⟨h, halternative⟩ := forall_mem_append.mp (forall_mem_cons.mp h).2
    obtain ⟨hcondition, hconsequence⟩ := forall_mem_append.mp h
    exact .branch (condition.rooted hcondition).unambiguous (consequence.unambiguous hconsequence)
      (unambiguousAlternative alternative halternative)
  | .function _ _ body, h =>
    .function (body.unambiguous (forall_mem_append.mp (forall_mem_cons.mp h).2).2)
  | .call _ callee arguments, h => by
    obtain ⟨hcallee, harguments⟩ := forall_mem_append.mp (forall_mem_cons.mp h).2
    exact .call (callee.rooted hcallee) (unambiguousAll arguments harguments)

theorem unambiguousAll : ∀ values : List (Expr α), (∀ node ∈ nodesOfAll values, node.Legible) →
    ∀ value ∈ values, value.Unambiguous
  | [], _ => nofun
  | expr :: rest, h => by
    obtain ⟨hexpr, hrest⟩ := forall_mem_append.mp h
    exact forall_mem_cons.mpr ⟨(expr.rooted hexpr).unambiguous, unambiguousAll rest hrest⟩

theorem unambiguousEntries : ∀ entries : List (Expr α × Expr α),
    (∀ node ∈ nodesOfEntries entries, node.Legible) →
    ∀ entry ∈ entries, entry.1.Unambiguous ∧ entry.2.Unambiguous
  | [], _ => nofun
  | (key, value) :: rest, h => by
    obtain ⟨h, hrest⟩ := forall_mem_append.mp h
    obtain ⟨hkey, hvalue⟩ := forall_mem_append.mp h
    exact forall_mem_cons.mpr ⟨⟨(key.rooted hkey).unambiguous, (value.rooted hvalue).unambiguous⟩,
      unambiguousEntries rest hrest⟩

theorem unambiguousAlternative : ∀ alternative : Option (Block α),
    (∀ node ∈ nodesOfAlternative alternative, node.Legible) →
    ∀ block ∈ alternative, block.Unambiguous
  | none, _ => nofun
  | some block, h => by
    intro other hother
    cases hother
    exact block.unambiguous h

theorem Block.unambiguous : ∀ block : Block α, block.Legible → block.Unambiguous
  | .mk _ body, h => .of_body (unambiguousStatements body h)

theorem Stmt.unambiguous : ∀ stmt : Stmt α, stmt.Legible → stmt.Unambiguous
  | .bind _ target value, h =>
    .bind target (value.rooted (forall_mem_cons.mp (forall_mem_cons.mp h).2).2).unambiguous
  | .leave _ none, _ => .leaveBare
  | .leave _ (some value), h => .leaveWith (value.rooted (forall_mem_cons.mp h).2).unambiguous
  | .expr _ value, h => .expr (value.rooted (forall_mem_cons.mp h).2).unambiguous
  | .block _, h => (h _ List.mem_cons_self).elim

theorem unambiguousStatements : ∀ stmts : List (Stmt α),
    (∀ node ∈ nodesOfStatements stmts, node.Legible) → ∀ stmt ∈ stmts, stmt.Unambiguous
  | [], _ => nofun
  | stmt :: rest, h => by
    obtain ⟨hstmt, hrest⟩ := forall_mem_append.mp h
    exact forall_mem_cons.mpr ⟨stmt.unambiguous hstmt, unambiguousStatements rest hrest⟩

end

/-! ### Programs -/

theorem renderStatements_eq_map (stmts : List (Stmt α)) :
    renderStatements stmts = stmts.map Stmt.render := by
  induction stmts with
  | nil => rfl
  | cons first rest ih => rw [renderStatements, ih, List.map_cons]

/-- The text of a statement, read as a whole. -/
theorem Stmt.words_render {stmt : Stmt α} (h : stmt.Legible) :
    Token.words stmt.render.toList = stmt.spelling ++ [(.eof, "")] := by
  have hspells := stmt.spells_render h [] .nil
  rwa [List.append_nil, Token.words_of_blank (List.forall_mem_nil _)] at hspells

theorem Stmt.bare_eq_of_render {stmt other : Stmt α} (h : stmt.Legible) (h' : other.Legible)
    (heq : stmt.render = other.render) :
    stmt.relabel (fun _ => ()) = other.relabel fun _ => () := by
  have hspelling := Stmt.words_render h
  rw [heq, Stmt.words_render h'] at hspelling
  have hend : Avoids stmtContinuers [(.eof, "")] := by
    intro word hword
    cases hword
    decide
  exact (stmt.unambiguous h other h' _ _ hend hend hspelling.symm).1

theorem Stmt.render_ne_empty {stmt : Stmt α} (h : stmt.Legible) : stmt.render ≠ "" := by
  intro hempty
  have hwords := Stmt.words_render h
  obtain ⟨first, tail, hspelling, -⟩ := leadsStmt_spelling stmt
  rw [hempty, String.toList_empty, Token.words_of_blank (List.forall_mem_nil _),
    hspelling] at hwords
  exact absurd (congrArg List.length hwords) (by simp)

theorem relabelStatements_eq_of_render {stmts : List (Stmt α)} : ∀ {others : List (Stmt α)},
    (∀ stmt ∈ stmts, stmt.Legible) → (∀ stmt ∈ others, stmt.Legible) →
    stmts.map Stmt.render = others.map Stmt.render →
    relabelStatements (fun _ => ()) stmts = relabelStatements (fun _ => ()) others := by
  induction stmts with
  | nil =>
    intro others _ _ heq
    rw [List.map_eq_nil_iff.mp heq.symm]
  | cons stmt rest ih =>
    intro others h h' heq
    cases others with
    | nil => cases heq
    | cons other others =>
      obtain ⟨hstmt, hrest⟩ := forall_mem_cons.mp h
      obtain ⟨hother, hothers⟩ := forall_mem_cons.mp h'
      obtain ⟨hfirst, hmore⟩ := List.cons.inj heq
      exact congrArg₂ List.cons (Stmt.bare_eq_of_render hstmt hother hfirst)
        (ih hrest hothers hmore)

/-- Lines that are not empty are found in the text that is made of them. -/
theorem eq_of_intercalate_newline {lines lines' : List String}
    (h : ∀ line ∈ lines, line ≠ "" ∧ ∃ texts, Text.Quotes line.toList texts)
    (h' : ∀ line ∈ lines', line ≠ "" ∧ ∃ texts, Text.Quotes line.toList texts)
    (heq : "\n".intercalate lines = "\n".intercalate lines') : lines = lines' := by
  have hflat : ∀ {pieces : List String}, pieces ≠ [] →
      ("\n".intercalate pieces).toList ++ ['\n'] = pieces.flatMap (·.toList ++ ['\n']) := by
    intro pieces hne
    induction pieces with
    | nil => exact absurd rfl hne
    | cons piece rest ih =>
      cases rest with
      | nil => simp
      | cons next rest =>
        rw [String.intercalate_cons_of_ne_nil (List.cons_ne_nil _ _), List.flatMap_cons,
          ← ih (List.cons_ne_nil _ _)]
        simp
  have hne {pieces : List String} (hpieces : ∀ line ∈ pieces, line ≠ "" ∧
      ∃ texts, Text.Quotes line.toList texts) (hempty : "\n".intercalate pieces = "") :
      pieces = [] := by
    cases pieces with
    | nil => rfl
    | cons piece rest =>
      refine absurd ?_ (hpieces piece List.mem_cons_self).1
      cases rest with
      | nil => simpa using hempty
      | cons next rest =>
        rw [String.intercalate_cons_of_ne_nil (List.cons_ne_nil _ _)] at hempty
        simp at hempty
  by_cases hnil : lines = []
  · rw [hnil] at heq ⊢
    exact (hne h' (heq.symm.trans rfl)).symm
  · have hnil' : lines' ≠ [] := by
      rintro rfl
      exact hnil (hne h (heq.trans rfl))
    refine Text.Quotes.lines_inj (fun line hline => (h line hline).2)
      (fun line hline => (h' line hline).2) ?_
    rw [← hflat hnil, ← hflat hnil', heq]

theorem relabelStatements_eq_of_intercalate {stmts others : List (Stmt α)}
    (h : ∀ node ∈ nodesOfStatements stmts, node.Legible)
    (h' : ∀ node ∈ nodesOfStatements others, node.Legible)
    (heq : "\n".intercalate (renderStatements stmts) = "\n".intercalate (renderStatements others)) :
    relabelStatements (fun _ => ()) stmts = relabelStatements (fun _ => ()) others := by
  have hlegible {parts : List (Stmt α)} (hparts : ∀ node ∈ nodesOfStatements parts, node.Legible) :
      ∀ stmt ∈ parts, stmt.Legible :=
    fun stmt hstmt node hnode => hparts node (mem_nodesOfStatements hstmt hnode)
  have hlines {parts : List (Stmt α)} (hparts : ∀ stmt ∈ parts, stmt.Legible) :
      ∀ line ∈ parts.map Stmt.render, line ≠ "" ∧ ∃ texts, Text.Quotes line.toList texts := by
    intro line hline
    obtain ⟨stmt, hstmt, rfl⟩ := List.mem_map.mp hline
    exact ⟨Stmt.render_ne_empty (hparts stmt hstmt), _, stmt.quotes_render (hparts stmt hstmt)⟩
  rw [renderStatements_eq_map, renderStatements_eq_map] at heq
  exact relabelStatements_eq_of_render (hlegible h) (hlegible h')
    (eq_of_intercalate_newline (hlines (hlegible h)) (hlines (hlegible h')) heq)

/-- Programs with the same canonical text have the same trees, up to where their tokens stand. -/
theorem bareStatements_eq_of_render {source source' : String}
    (h : (Program.ofSource source).errors = []) (h' : (Program.ofSource source').errors = [])
    (heq : (Program.ofSource source).render = (Program.ofSource source').render) :
    bareStatements source = bareStatements source' :=
  relabelStatements_eq_of_intercalate (Program.legible_ofSource h) (Program.legible_ofSource h') heq

/-- Calls of calls, a conditional without `else` inside another one, and a string with a line
end. -/
theorem bareStatements_eq_of_render_nested :
    let source := "if (a) \x7b if ((f(1)(2))) \x7b \"; \n\" \x7d \x7d else \x7b \x7b\x7d \x7d"
      ++ " fn(x) \x7b return x; \x7d(3)[0]"
    let source' := "if ((a)) \x7b (if (f(1)(2)) \x7b (\"; \n\"); \x7d) \x7d else \x7b (\x7b\x7d); "
      ++ "\x7d;\n((fn(x) \x7b return (x) \x7d)(3)[0]);"
    (Program.ofSource source).errors = [] ∧ (Program.ofSource source').errors = [] ∧
      (Program.ofSource source).render = (Program.ofSource source').render ∧
      bareStatements source = bareStatements source' := by
  intro source source'
  have h : (Program.ofSource source).errors = [] := by decide +kernel
  have h' : (Program.ofSource source').errors = [] := by decide +kernel
  have heq : (Program.ofSource source).render = (Program.ofSource source').render := by
    decide +kernel
  exact ⟨h, h', heq, bareStatements_eq_of_render h h' heq⟩

end Scriptlet.Grammar
