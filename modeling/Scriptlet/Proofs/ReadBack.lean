import Scriptlet.Proofs.Recognition
import Scriptlet.Proofs.Relabel

/-! # Canonical text reads back

A tree that was read from a source and is written out again is read as the same tree, up to where
its tokens stand. The condition of an `if` is written without parentheses of its own, so that it has
to be a tree that brings them along.
-/

namespace Scriptlet.Grammar

open Token (Word)
open List (forall_mem_append forall_mem_cons)

variable {α : Type}

/-- The tree without its labels. -/
def Expr.bare (expr : Expr α) : Expr Unit :=
  expr.relabel fun _ => ()

/-- Whether the tree is written between parentheses. -/
def Expr.isOperation : Expr α → Bool
  | .unary _ _ _ | .binary _ _ _ _ | .index _ _ _ => true
  | _ => false

/-- Whether the node, if it is a conditional, has an operation for its condition. -/
def Node.testsOperation : Node α → Bool
  | .expr (.branch _ condition _ _) => condition.isOperation
  | _ => true

/-- The node is written so that it can be read. -/
def Node.Writable (node : Node α) : Prop :=
  node.Legible ∧ node.testsOperation = true

theorem integer?_toString {value : Int64} (h : 0 ≤ value.toInt) :
    integer? (toString value.toInt) = some value := by
  obtain ⟨n, hn⟩ := Int.eq_ofNat_of_zero_le h
  have hle : n ≤ Int64.maxValue.toNatClampNeg := by
    have hmax : Int64.maxValue.toNatClampNeg = 2 ^ 63 - 1 := rfl
    have := value.toInt_lt
    omega
  have hdigits : Nat.ofDigitChars 10 (toString value.toInt).toList 0 = n := by
    rw [hn]
    change Nat.ofDigitChars 10 (Nat.repr n).toList 0 = n
    rw [Nat.toList_repr, Nat.ofDigitChars_ten_toDigits]
  have hvalue : Int64.ofNat n = value := by
    rw [← Int64.toInt_inj, Int64.toInt_ofNat_of_lt (Nat.lt_succ_of_le hle), hn]
  simp only [integer?, hdigits, if_pos hle, hvalue]

/-- What is like the tree but for its labels. -/
def Expr.Like (expr : Expr α) (value : Expr Token) : Prop :=
  value.bare = expr.bare

def Block.Like (block : Block α) (value : Block Token) : Prop :=
  value.relabel (fun _ => ()) = block.relabel fun _ => ()

def Stmt.Like (stmt : Stmt α) (value : Stmt Token) : Prop :=
  value.relabel (fun _ => ()) = stmt.relabel fun _ => ()

theorem relabelAll_of_like {exprs : List (Expr α)} {values : List (Expr Token)}
    (h : List.Forall₂ Expr.Like exprs values) :
    relabelAll (fun _ => ()) values = relabelAll (fun _ => ()) exprs := by
  induction h with
  | nil => rfl
  | cons hfirst _ ih => exact congrArg₂ List.cons hfirst ih

theorem relabelStatements_of_like {stmts : List (Stmt α)} {values : List (Stmt Token)}
    (h : List.Forall₂ Stmt.Like stmts values) :
    relabelStatements (fun _ => ()) values = relabelStatements (fun _ => ()) stmts := by
  induction h with
  | nil => rfl
  | cons hfirst _ ih => exact congrArg₂ List.cons hfirst ih

theorem relabelEntries_of_like {entries : List (Expr α × Expr α)}
    {values : List (Expr Token × Expr Token)}
    (h : List.Forall₂ (fun entry value => entry.1.Like value.1 ∧ entry.2.Like value.2)
      entries values) :
    relabelEntries (fun _ => ()) values = relabelEntries (fun _ => ()) entries := by
  induction h with
  | nil => rfl
  | cons hfirst _ ih => exact congrArg₂ List.cons (Prod.ext hfirst.1 hfirst.2) ih

theorem relabel_parameters_of_names {parameters : List (Ident α)} {values : List (Ident Token)}
    (h : List.Forall₂ (fun parameter value => value.name = parameter.name) parameters values) :
    values.map (Ident.relabel fun _ => ()) = parameters.map (Ident.relabel fun _ => ()) := by
  induction h with
  | nil => rfl
  | cons hfirst _ ih => exact congrArg₂ List.cons (congrArg (Ident.mk ()) hfirst) ih

/-! ### The words that a list or a statement begins with -/

theorem leadsExpr_spelling (expr : Expr α) : LeadsExpr expr.spelling :=
  expr.spelling_eq_cons

theorem LeadsExpr.leadsItem {ws : List Word} (h : LeadsExpr ws) {closing : Token.Kind}
    (hclosing : closing ∈ closers) (xs : List Word) : LeadsItem closing (ws ++ xs) := by
  obtain ⟨first, tail, rfl, hfirst⟩ := h
  have hdisjoint : ∀ closing ∈ closers, closing ∉ starters := by decide
  refine ⟨first, tail ++ xs, rfl, ?_⟩
  rintro rfl
  exact hdisjoint _ hclosing hfirst

theorem leadsItem_spellAll {closing : Token.Kind} (hclosing : closing ∈ closers) :
    ∀ values : List (Expr α), ∀ ws ∈ spellAll values, LeadsItem closing ws := by
  intro values
  induction values with
  | nil => exact nofun
  | cons expr rest ih =>
    have hfirst := (leadsExpr_spelling expr).leadsItem hclosing []
    rw [List.append_nil] at hfirst
    exact forall_mem_cons.mpr ⟨hfirst, ih⟩

theorem leadsItem_spellEntries {closing : Token.Kind} (hclosing : closing ∈ closers) :
    ∀ entries : List (Expr α × Expr α), ∀ ws ∈ spellEntries entries, LeadsItem closing ws := by
  intro entries
  induction entries with
  | nil => exact nofun
  | cons entry rest ih =>
    exact forall_mem_cons.mpr ⟨(leadsExpr_spelling entry.1).leadsItem hclosing _, ih⟩

theorem LeadsExpr.leadsStmt {ws : List Word} (h : LeadsExpr ws) : LeadsStmt ws := by
  obtain ⟨first, tail, rfl, hfirst⟩ := h
  have hdisjoint : ∀ kind ∈ starters, kind ∉ [.rightBrace, .eof] := by decide
  exact ⟨first, tail, rfl, hdisjoint _ hfirst⟩

theorem leadsStmt_spelling : ∀ stmt : Stmt α, LeadsStmt stmt.spelling
  | .bind _ _ _ | .leave _ none | .leave _ (some _) | .block (.mk _ _) => ⟨_, _, rfl, by decide⟩
  | .expr _ value => (leadsExpr_spelling value).leadsStmt

/-- The kinds that the statement ends in front of. -/
def Stmt.endsBefore : Stmt α → List Token.Kind
  | .leave _ none => leaveEnders
  | _ => enders

theorem mem_endsBefore_of_mem_stmtEnders (stmt : Stmt α) :
    ∀ kind ∈ stmtEnders, kind ∈ stmt.endsBefore := by
  unfold Stmt.endsBefore
  split <;> decide

/-! ### Trees are recognized by their spelling -/

theorem recognizedBinders (parameters : List (Ident α)) :
    List.Forall₂ (fun ws (parameter : Ident α) =>
      Recognizes (Yields fun n (s : Cursor) (_ : s.size < n) => s.binder) enders ws
        fun ident => ident.name = parameter.name)
      (parameters.map fun parameter => [(.ident, parameter.name)]) parameters := by
  rw [List.forall₂_map_left_iff, List.forall₂_same]
  exact fun parameter _ => recognizes_binder parameter.name

theorem leadsItem_binders {closing : Token.Kind} (hclosing : closing ∈ closers)
    (parameters : List (Ident α)) :
    ∀ ws ∈ parameters.map fun parameter => [(Token.Kind.ident, parameter.name)],
      LeadsItem closing ws := by
  have hdisjoint : ∀ closing ∈ closers, Token.Kind.ident ≠ closing := by decide
  rw [List.forall_mem_map]
  exact fun parameter _ => ⟨_, _, rfl, hdisjoint closing hclosing⟩

theorem Block.spelling_eq_cons (block : Block α) :
    ∃ ws, block.spelling = Token.Kind.leftBrace.word :: ws := by
  cases block with
  | mk label statements => exact ⟨_, rfl⟩

/-- The tree is recognized by its spelling, and if it is written between parentheses also by what
stands between them. -/
structure Expr.Recognized (expr : Expr α) : Prop where
  opens : Recognizes Opens followers expr.spelling expr.Like
  inside : expr.isOperation = true → ∃ ws, expr.spelling = grouped ws ∧
    Recognizes YieldsExpr enders ws expr.Like

theorem Expr.Recognized.of_inside {expr : Expr α} {ws : List Word}
    (hspelling : expr.spelling = grouped ws) (h : Recognizes YieldsExpr enders ws expr.Like) :
    expr.Recognized where
  opens := hspelling ▸ recognizes_grouped h
  inside _ := ⟨ws, hspelling, h⟩

mutual

theorem Expr.recognized : ∀ expr : Expr α, (∀ node ∈ expr.nodes, node.Writable) → expr.Recognized
  | .int _ value, h => by
    have hvalue : 0 ≤ value.toInt := (h _ List.mem_cons_self).1
    refine ⟨(recognizes_int (integer?_toString hvalue)).imp ?_, nofun⟩
    rintro _ ⟨_, rfl⟩
    rfl
  | .bool _ value, _ => by
    refine ⟨(recognizes_bool value).imp ?_, nofun⟩
    rintro _ ⟨_, rfl⟩
    rfl
  | .name _ name, _ => by
    refine ⟨(recognizes_name name).imp ?_, nofun⟩
    rintro _ ⟨_, rfl⟩
    rfl
  | .string _ text, _ => by
    refine ⟨(recognizes_string text).imp ?_, nofun⟩
    rintro _ ⟨_, rfl⟩
    rfl
  | .array _ elements, h => by
    have helements := recognizedAll elements (forall_mem_cons.mp h).2
    have hlist := recognizes_list .rightBracket (by decide) helements
      (leadsItem_spellAll (by decide) elements) followers
    refine ⟨(recognizes_array hlist).imp ?_, nofun⟩
    rintro _ ⟨_, _, rfl, hlike⟩
    exact congrArg (Expr.array ()) (relabelAll_of_like hlike)
  | .map _ entries, h => by
    have hentries := recognizedEntries entries (forall_mem_cons.mp h).2
    have hlist := recognizes_list .rightBrace (by decide) hentries
      (leadsItem_spellEntries (by decide) entries) followers
    refine ⟨(recognizes_map hlist).imp ?_, nofun⟩
    rintro _ ⟨_, _, rfl, hlike⟩
    exact congrArg (Expr.map ()) (relabelEntries_of_like hlike)
  | .unary _ op operand, h => by
    have hoperand := operand.recognized (forall_mem_cons.mp h).2
    refine .of_inside rfl ((recognizes_unary hoperand.opens).imp ?_)
    rintro _ ⟨_, _, rfl, hlike⟩
    exact congrArg (Expr.unary () op) hlike
  | .binary _ op lhs rhs, h => by
    obtain ⟨hlhs, hrhs⟩ := forall_mem_append.mp (forall_mem_cons.mp h).2
    have hlhs := lhs.recognized hlhs
    have hrhs := rhs.recognized hrhs
    refine .of_inside rfl ((recognizes_binary hlhs.opens hrhs.opens).imp ?_)
    rintro _ ⟨_, _, _, rfl, hlike, hlike'⟩
    exact congrArg₂ (Expr.binary () op) hlike hlike'
  | .branch _ condition consequence none, h => by
    obtain ⟨⟨-, htests⟩, h⟩ := forall_mem_cons.mp h
    obtain ⟨h, -⟩ := forall_mem_append.mp h
    obtain ⟨hcondition, hconsequence⟩ := forall_mem_append.mp h
    obtain ⟨inside, hspelling, hinside⟩ := (condition.recognized hcondition).inside htests
    have hconsequence := consequence.recognized hconsequence followers
    refine ⟨?_, nofun⟩
    simp only [Expr.spelling, spellAlternative, hspelling, List.append_nil]
    refine (recognizes_branch hinside hconsequence).imp ?_
    rintro _ ⟨_, _, _, rfl, hlike, hlike'⟩
    exact congrArg₂ (Expr.branch () · · none) hlike hlike'
  | .branch _ condition consequence (some alternative), h => by
    obtain ⟨⟨-, htests⟩, h⟩ := forall_mem_cons.mp h
    obtain ⟨h, halternative⟩ := forall_mem_append.mp h
    obtain ⟨hcondition, hconsequence⟩ := forall_mem_append.mp h
    obtain ⟨inside, hspelling, hinside⟩ := (condition.recognized hcondition).inside htests
    have hconsequence := consequence.recognized hconsequence [.elseWord]
    have halternative := alternative.recognized halternative followers
    refine ⟨?_, nofun⟩
    simp only [Expr.spelling, spellAlternative, hspelling]
    refine (recognizes_branchElse hinside hconsequence halternative).imp ?_
    rintro _ ⟨_, _, _, _, rfl, hcondition, hconsequence, halternative⟩
    simp only [Expr.Like, Expr.bare, Block.Like] at hcondition hconsequence halternative ⊢
    simp only [Expr.relabel, relabelAlternative, hcondition, hconsequence, halternative]
  | .function _ parameters body, h => by
    obtain ⟨-, hbody⟩ := forall_mem_append.mp (forall_mem_cons.mp h).2
    have hbody := body.recognized hbody followers
    have hparameters := recognizes_list .rightParen (by decide) (recognizedBinders parameters)
      (leadsItem_binders (by decide) parameters) [.leftBrace]
    obtain ⟨ws, hspelling⟩ := body.spelling_eq_cons
    refine ⟨?_, nofun⟩
    rw [hspelling] at hbody
    rw [Expr.spelling, hspelling, List.append_cons]
    refine (recognizes_function hparameters hbody).imp ?_
    rintro _ ⟨_, _, _, rfl, hnames, hlike⟩
    exact congrArg₂ (Expr.function ()) (relabel_parameters_of_names hnames) hlike
  | .call _ callee arguments, h => by
    obtain ⟨hcallee, harguments⟩ := forall_mem_append.mp (forall_mem_cons.mp h).2
    have hcallee := callee.recognized hcallee
    have harguments := recognizedAll arguments harguments
    have hlist := recognizes_list .rightParen (by decide) harguments
      (leadsItem_spellAll (by decide) arguments) followers
    refine ⟨(recognizes_call hcallee.opens hlist).imp ?_, nofun⟩
    rintro _ ⟨_, _, _, rfl, hlike, hlikes⟩
    exact congrArg₂ (Expr.call ()) hlike (relabelAll_of_like hlikes)
  | .index _ collection position, h => by
    obtain ⟨hcollection, hposition⟩ := forall_mem_append.mp (forall_mem_cons.mp h).2
    have hcollection := collection.recognized hcollection
    have hposition := position.recognized hposition
    refine .of_inside rfl ((recognizes_index hcollection.opens hposition.opens.whole).imp ?_)
    rintro _ ⟨_, _, _, rfl, hlike, hlike'⟩
    exact congrArg₂ (Expr.index ()) hlike hlike'

theorem recognizedAll : ∀ values : List (Expr α), (∀ node ∈ nodesOfAll values, node.Writable) →
    List.Forall₂ (fun ws expr => Recognizes YieldsExpr enders ws expr.Like) (spellAll values) values
  | [], _ => .nil
  | expr :: rest, h => by
    obtain ⟨hexpr, hrest⟩ := forall_mem_append.mp h
    exact .cons (expr.recognized hexpr).opens.whole (recognizedAll rest hrest)

theorem recognizedEntries : ∀ entries : List (Expr α × Expr α),
    (∀ node ∈ nodesOfEntries entries, node.Writable) →
    List.Forall₂ (fun ws entry =>
      Recognizes (Yields fun n => Cursor.entry (above n 0)) enders ws
        fun value => entry.1.Like value.1 ∧ entry.2.Like value.2)
      (spellEntries entries) entries
  | [], _ => .nil
  | (key, value) :: rest, h => by
    obtain ⟨h, hrest⟩ := forall_mem_append.mp h
    obtain ⟨hkey, hvalue⟩ := forall_mem_append.mp h
    exact .cons (recognizes_entry (key.recognized hkey).opens.whole
      (value.recognized hvalue).opens.whole) (recognizedEntries rest hrest)

theorem Block.recognized : ∀ block : Block α, (∀ node ∈ block.nodes, node.Writable) →
    ∀ follow, Recognizes YieldsBlock follow block.spelling block.Like
  | .mk _ body, h, follow => by
    have hbody := recognizedStatements body h
    refine (recognizes_block (recognizes_body follow hbody)).imp ?_
    rintro _ ⟨_, _, rfl, hlike⟩
    exact congrArg (Block.mk ()) (relabelStatements_of_like hlike)

theorem Stmt.recognized : ∀ stmt : Stmt α, (∀ node ∈ stmt.nodes, node.Writable) →
    Recognizes YieldsStmt stmt.endsBefore stmt.spelling stmt.Like
  | .bind _ target value, h => by
    have hvalue := value.recognized (forall_mem_cons.mp (forall_mem_cons.mp h).2).2
    refine (recognizes_bind hvalue.opens.whole).imp ?_
    rintro _ ⟨_, _, _, rfl, hname, hlike⟩
    exact congrArg₂ (Stmt.bind ()) (congrArg (Ident.mk ()) hname) hlike
  | .leave _ none, _ => by
    refine recognizes_leave.imp ?_
    rintro _ ⟨_, rfl⟩
    rfl
  | .leave _ (some value), h => by
    have hvalue := value.recognized (forall_mem_cons.mp h).2
    refine (recognizes_leaveWith hvalue.opens.whole (leadsExpr_spelling value)).imp ?_
    rintro _ ⟨_, _, rfl, hlike⟩
    exact congrArg (fun value => Stmt.leave () (some value)) hlike
  | .expr _ value, h => by
    have hvalue := value.recognized (forall_mem_cons.mp h).2
    refine (recognizes_exprStmt hvalue.opens.whole (leadsExpr_spelling value)).imp ?_
    rintro _ ⟨_, _, rfl, hlike⟩
    exact congrArg (Stmt.expr ()) hlike
  | .block _, h => (h _ List.mem_cons_self).1.elim

theorem recognizedStatements : ∀ stmts : List (Stmt α),
    (∀ node ∈ nodesOfStatements stmts, node.Writable) →
    List.Forall₂
      (fun ws stmt => Recognizes YieldsStmt stmtEnders ws (Stmt.Like stmt) ∧ LeadsStmt ws)
      (spellStatements stmts) stmts
  | [], _ => .nil
  | stmt :: rest, h => by
    obtain ⟨hstmt, hrest⟩ := forall_mem_append.mp h
    have hfirst := (stmt.recognized hstmt).mono (mem_endsBefore_of_mem_stmtEnders stmt)
    exact .cons ⟨hfirst, leadsStmt_spelling stmt⟩ (recognizedStatements rest hrest)

end

/-! ### Reading canonical text -/

/-- The canonical text of a tree with these nodes is read as a whole, as the same tree. -/
theorem Expr.gives_render (expr : Expr α) (h : ∀ node ∈ expr.nodes, node.Writable) :
    ∃ again u eof, (Cursor.ofSource expr.render).expression.Gives again u ∧
      u.tokens = [eof] ∧ eof.kind = .eof ∧ again.bare = expr.bare := by
  have hwords : (Cursor.ofSource expr.render).words = expr.spelling ++ [(.eof, "")] := by
    have hspells := expr.spells_render (fun node hnode => (h node hnode).1) [] .nil
    rw [List.append_nil, Token.words_of_blank (List.forall_mem_nil _)] at hspells
    exact hspells
  obtain ⟨again, u, hyields, hu, hlike⟩ :=
    (expr.recognized h).opens.whole _ (.eof, "") [] hwords (by decide)
  obtain ⟨eof, heof, hword⟩ := List.map_eq_singleton_iff.mp hu
  exact ⟨again, u, eof, hyields.gives, heof, congrArg Prod.fst hword, hlike⟩

/-- What is read from a source as an expression, written out, is read as the same expression, up to
where its tokens stand, with nothing left over. The condition of every conditional in it has to be
an operation. -/
theorem expression_ofSource_render {source : String} {expr : Expr Token} {t : Cursor}
    (hread : (Cursor.ofSource source).expression.Gives expr t)
    (htests : ∀ node ∈ expr.nodes, node.testsOperation = true) :
    ∃ again u eof, (Cursor.ofSource expr.render).expression.Gives again u ∧
      u.tokens = [eof] ∧ eof.kind = .eof ∧ again.bare = expr.bare := by
  have hreads : Reads (Cursor.ofSource source) (.item (.expr expr)) t := by
    obtain ⟨shorter, hok⟩ := hread
    have hends := reads_expressionAbove 0 (Cursor.ofSource source)
    exact hends expr t shorter hok
  have hlegible := hreads.legible (Cursor.proper_ofSource source)
  exact expr.gives_render fun node hnode => ⟨hlegible node hnode, htests node hnode⟩

/-- Redundant parentheses, trailing semicolons and conditionals within literals. -/
theorem expression_ofSource_render_nested :
    let source := "if ((!ok)) \x7b let f = fn(a, b) \x7b return (a)[-0]; \x7d; f(1, \"s\"); \x7d "
      ++ "else \x7b \x7b true: (if (1 < 2) \x7b [] \x7d)\x7d \x7d + 3 * x rest"
    let text := "(if (!ok) \x7b let f = fn(a, b) \x7b return (a[(-0)]) \x7d; f(1, \"s\") \x7d "
      ++ "else \x7b \x7btrue: if (1 < 2) \x7b [] \x7d\x7d \x7d + (3 * x))"
    ∃ expr t, (Cursor.ofSource source).expression.Gives expr t ∧
      (∀ node ∈ expr.nodes, node.testsOperation = true) ∧ expr.render = text ∧
      ∃ again u eof, (Cursor.ofSource expr.render).expression.Gives again u ∧
        u.tokens = [eof] ∧ eof.kind = .eof ∧ again.bare = expr.bare := by
  intro source text
  have hgood : (match (Cursor.ofSource source).expression with
    | .ok expr _ _ => expr.nodes.all (·.testsOperation) && expr.render == text
    | .fail _ _ _ => false) = true := by decide +kernel
  cases hread : (Cursor.ofSource source).expression with
  | fail error t within =>
    rw [hread] at hgood
    cases hgood
  | ok expr t shorter =>
    rw [hread] at hgood
    obtain ⟨htests, hrender⟩ := Bool.and_eq_true_iff.mp hgood
    have htests := List.all_eq_true.mp htests
    exact ⟨expr, t, ⟨shorter, rfl⟩, htests, eq_of_beq hrender,
      expression_ofSource_render ⟨shorter, hread⟩ htests⟩

end Scriptlet.Grammar
