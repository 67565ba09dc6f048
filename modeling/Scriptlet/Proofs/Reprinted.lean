import Mathlib.Data.List.Chain
import Scriptlet.Proofs.Mirror
import Scriptlet.Proofs.Tested

/-! # Programs that read back

The lines of a program are written without anything between them, and a line can go on with what
stands in the next one. So the text of a program is read as the program again just if no line does
that, and if every conditional tests an operation, which brings the parentheses along.
-/

namespace Scriptlet

namespace Token

theorem Delimits.newline (cs : List Char) : Delimits ('\n' :: cs) := by
  intro d hd
  cases hd
  exact ⟨by decide +kernel, by decide, by decide⟩

namespace Spells

variable {cs ds : List Char} {ws xs : List Word}

theorem newline (hds : Spells ds xs) : Spells ('\n' :: ds) xs := by
  intro rest hrest
  rw [List.cons_append, words_cons_blank (by decide), hds rest hrest]

theorem append_newline (hcs : Spells cs ws) (hds : Spells ds xs) :
    Spells (cs ++ '\n' :: ds) (ws ++ xs) :=
  hcs.append hds.newline fun rest _ => .newline (ds ++ rest)

theorem lines {texts : List String} {spellings : List (List Word)}
    (hall : List.Forall₂ (fun text spelling => Spells text.toList spelling) texts spellings) :
    Spells ("\n".intercalate texts).toList spellings.flatten := by
  rw [String.toList_intercalate]
  induction hall with
  | nil => exact nil
  | cons hfirst hrest ih =>
    cases hrest with
    | nil => simpa using hfirst
    | cons _ _ =>
      simp only [List.map_cons, List.intercalate_cons_cons, String.reduceToList, List.append_assoc,
        List.cons_append, List.nil_append, List.flatten_cons] at ih ⊢
      exact hfirst.append_newline ih

end Spells

end Token

namespace Grammar

open Token (Word)
open List (forall_mem_append forall_mem_cons)

variable {α : Type}

/-! ### One line behind the other -/

/-- Whether the text of the expression begins with a parenthesis or a bracket. -/
def Expr.attaches (expr : Expr α) : Bool :=
  match expr.root with
  | .array _ _ => true
  | root => root.isOperation

/-- Whether the statement goes on a statement in front of it that ends with an expression. -/
def Stmt.attaches : Stmt α → Bool
  | .expr _ value => value.attaches
  | _ => false

/-- Whether the statement is a `return` without a value. -/
def Stmt.isBareLeave : Stmt α → Bool
  | .leave _ none => true
  | _ => false

/-- The statement can stand in the line in front of the other. -/
def Stmt.Precedes (first second : Stmt α) : Prop :=
  first.isBareLeave = false ∧ second.attaches = false

instance (first second : Stmt α) : Decidable (first.Precedes second) :=
  inferInstanceAs (Decidable (_ ∧ _))

/-- The text of the program can be read as the program. -/
structure Program.Reprintable (program : Program α) : Prop where
  tests : ∀ node ∈ nodesOfStatements program.statements, node.testsOperation = true
  lines : program.statements.IsChain Stmt.Precedes

instance (program : Program α) : Decidable program.Reprintable :=
  decidable_of_iff ((∀ node ∈ nodesOfStatements program.statements, node.testsOperation = true) ∧
      program.statements.IsChain Stmt.Precedes)
    ⟨fun h => ⟨h.1, h.2⟩, fun h => ⟨h.tests, h.lines⟩⟩

/-- The kinds that a line begins with which belongs to no line in front of it. -/
def lineStarters : List Token.Kind :=
  [.int, .ident, .string, .trueWord, .falseWord, .ifWord, .fnWord, .leftBrace, .letWord,
    .returnWord]

/-- The kinds that suffixes of operands begin with, other than those of operators. -/
def attachers : List Token.Kind :=
  [.leftParen, .leftBracket]

theorem Expr.spelling_eq_attacher (expr : Expr α) : ∃ first ws, expr.spelling = first :: ws ∧
    (expr.attaches = true → first.1 ∈ attachers) ∧
      (expr.attaches = false → first.1 ∈ lineStarters) := by
  have hcall := expr.isCall_root
  rw [expr.spelling_eq_append, Expr.attaches]
  cases hroot : expr.root with
  | bool _ value => exact ⟨_, _, rfl, nofun, fun _ => by cases value <;> decide⟩
  | array _ _ | unary _ _ _ | binary _ _ _ _ | index _ _ _ =>
    exact ⟨_, _, rfl, fun _ => by decide, nofun⟩
  | call _ _ _ =>
    rw [hroot] at hcall
    cases hcall
  | map _ _ | branch _ _ _ _ | function _ _ _ => exact ⟨_, _, rfl, nofun, fun _ => by decide⟩
  | int _ _ | name _ _ | string _ _ => exact ⟨_, _, rfl, nofun, fun _ => by simp [lineStarters]⟩

theorem Stmt.spelling_eq_attacher (stmt : Stmt α) : ∃ first ws, stmt.spelling = first :: ws ∧
    (stmt.attaches = true → first.1 ∈ attachers) ∧
      (stmt.attaches = false → first.1 ∈ lineStarters) := by
  cases stmt with
  | bind _ _ _ => exact ⟨_, _, rfl, nofun, fun _ => by decide⟩
  | leave _ value => cases value <;> exact ⟨_, _, rfl, nofun, fun _ => by decide⟩
  | expr _ value => exact value.spelling_eq_attacher
  | block inner =>
    obtain ⟨ws, hspelling⟩ := inner.spelling_eq_cons
    exact ⟨_, ws, hspelling, nofun, fun _ => by decide⟩

/-- The words of the text of a program. -/
def spellLines (stmts : List (Stmt α)) : List Word :=
  (spellStatements stmts).flatten ++ [(.eof, "")]

theorem words_renderStatements {stmts : List (Stmt α)}
    (h : ∀ node ∈ nodesOfStatements stmts, node.Legible) :
    Token.words ("\n".intercalate (renderStatements stmts)).toList = spellLines stmts := by
  have hspells := Token.Spells.lines (spells_renderStatements stmts h) [] .nil
  rwa [List.append_nil, Token.words_of_blank (List.forall_mem_nil _)] at hspells

theorem spellLines_cons (stmt : Stmt α) (rest : List (Stmt α)) :
    spellLines (stmt :: rest) = stmt.spelling ++ spellLines rest :=
  List.append_assoc _ _ _

/-- A line ends where the next one begins, unless that goes on with it. -/
theorem exists_next {stmt : Stmt α} {rest : List (Stmt α)}
    (h : ∀ next ∈ rest.head?, stmt.Precedes next) : ∃ word ws,
    spellLines rest = word :: ws ∧ word.1 ≠ .semicolon ∧ word.1 ∈ stmt.endsBefore := by
  cases rest with
  | nil => exact ⟨_, _, rfl, by decide, by unfold Stmt.endsBefore; split <;> decide⟩
  | cons next rest =>
    obtain ⟨hleave, hattaches⟩ := h next rfl
    obtain ⟨first, ws, hspelling, -, hfirst⟩ := next.spelling_eq_attacher
    have hkinds : ∀ kind ∈ lineStarters, kind ≠ .semicolon ∧ kind ∈ enders := by decide
    obtain ⟨hsemicolon, henders⟩ := hkinds _ (hfirst hattaches)
    refine ⟨first, ws ++ spellLines rest, ?_, hsemicolon, ?_⟩
    · rw [spellLines_cons, hspelling, List.cons_append]
    · unfold Stmt.endsBefore
      split
      · cases hleave
      · exact henders

/-- The first line is read as its statement. -/
theorem exists_gives_topStatement {stmt : Stmt α} {rest : List (Stmt α)} {s : Cursor}
    (hwritable : ∀ node ∈ stmt.nodes, node.Writable)
    (hnext : ∀ next ∈ rest.head?, stmt.Precedes next) (hs : s.words = spellLines (stmt :: rest)) :
    ∃ value t, s.topStatement.Gives value t ∧ t.words = spellLines rest ∧ stmt.Like value := by
  obtain ⟨word, ws, hrest, hsemicolon, hends⟩ := exists_next hnext
  rw [spellLines_cons, hrest] at hs
  obtain ⟨value, t, hyields, ht, hlike⟩ := stmt.recognized hwritable s word ws hs hends
  obtain ⟨token, u, htakes, -, -⟩ := Cursor.takes_of_words ht
  have hgives : s.topStatement.Gives value (t.skip .semicolon) := hyields _ (Nat.lt_succ_self _)
  rw [skip_of_takes_other htakes hsemicolon] at hgives
  exact ⟨value, t, hgives, by rw [ht, hrest], hlike⟩

theorem not_atEnd_of_lines {stmt : Stmt α} {rest : List (Stmt α)} {s : Cursor}
    (hs : s.words = spellLines (stmt :: rest)) : ¬s.atEnd = true := by
  obtain ⟨first, tail, hspelling, hfirst⟩ := leadsStmt_spelling stmt
  rw [spellLines_cons, hspelling] at hs
  obtain ⟨token, t, htakes, -, -⟩ := Cursor.takes_of_words hs
  simp only [List.mem_cons, List.not_mem_nil, or_false, not_or] at hfirst
  simp [Cursor.atEnd, Cursor.kind?, Cursor.peek?_of_next? htakes.next?_eq, htakes.kind_eq, hfirst]

theorem program_of_lines {stmts : List (Stmt α)}
    (hwritable : ∀ node ∈ nodesOfStatements stmts, node.Writable)
    (hchain : stmts.IsChain Stmt.Precedes) : ∀ {s : Cursor}, s.words = spellLines stmts →
    s.program.1.errors = [] ∧ List.Forall₂ Stmt.Like stmts s.program.1.statements := by
  induction stmts with
  | nil =>
    intro s hs
    obtain ⟨token, t, htakes, -, -⟩ := Cursor.takes_of_words hs
    have hend : s.atEnd = true := by
      simp [Cursor.atEnd, Cursor.kind?, Cursor.peek?_of_next? htakes.next?_eq, htakes.kind_eq]
    rw [program_of_atEnd hend]
    exact ⟨rfl, .nil⟩
  | cons stmt rest ih =>
    intro s hs
    obtain ⟨hstmt, hrest⟩ := forall_mem_append.mp hwritable
    obtain ⟨hnext, hchain⟩ := List.isChain_cons.mp hchain
    obtain ⟨value, t, ⟨shorter, hgives⟩, ht, hlike⟩ := exists_gives_topStatement hstmt hnext hs
    obtain ⟨herrors, hlikes⟩ := ih hrest hchain ht
    rw [program_of_ok (not_atEnd_of_lines hs) hgives]
    exact ⟨herrors, .cons hlike hlikes⟩

/-! ### Lines that go on -/

/-- How many suffixes an expression ends with one behind the other. -/
def Expr.leftDepth : Expr α → Nat
  | .binary _ _ lhs _ => lhs.leftDepth + 1
  | .call _ callee _ => callee.leftDepth + 1
  | .index _ collection _ => collection.leftDepth + 1
  | _ => 0

theorem Expr.leftDepth_bare (expr : Expr α) : expr.bare.leftDepth = expr.leftDepth := by
  fun_induction Expr.leftDepth expr with
  | case1 _ _ _ _ ih | case2 _ _ _ ih | case3 _ _ _ ih => exact congrArg (· + 1) ih
  | case4 expr hbinary hcall hindex =>
    cases expr with
    | binary label op lhs rhs => exact absurd rfl (hbinary label op lhs rhs)
    | call label callee arguments => exact absurd rfl (hcall label callee arguments)
    | index label collection position => exact absurd rfl (hindex label collection position)
    | _ => rfl

theorem Climbs.leftDepth_le {least : Nat} {lhs value : Expr Token} {s t : Cursor}
    (h : Climbs least lhs s value t) : lhs.leftDepth ≤ value.leftDepth := by
  induction h with
  | stop _ => exact Nat.le_refl _
  | binary _ _ _ _ _ ih | call _ _ _ _ ih | index _ _ _ _ _ ih => exact Nat.le_of_succ_le ih

theorem Climbs.stopsAt_or_lt {least : Nat} {lhs value : Expr Token} {s t : Cursor}
    (h : Climbs least lhs s value t) : s.StopsAt least ∨ lhs.leftDepth < value.leftDepth := by
  cases h with
  | stop hstop => exact .inl hstop
  | binary _ _ _ _ hrest | call _ _ _ hrest | index _ _ _ _ hrest =>
    exact .inr hrest.leftDepth_le

/-- An expression that was read just so is not followed by a suffix: with that the reader would have
come to a deeper one. -/
theorem Expr.notMem_attachers_of_gives {expr : Expr α} (h : ∀ node ∈ expr.nodes, node.Writable)
    {s t : Cursor} {word : Word} {ws : List Word} {value : Expr Token}
    (hs : s.words = expr.spelling ++ word :: ws) (hgives : s.expression.Gives value t)
    (hlike : expr.Like value) : word.1 ∉ attachers := by
  intro hword
  have hfollows : ∀ kind ∈ attachers, kind ∈ followers ∧ (Suffix.ofKind? kind).isSome = true := by
    decide
  obtain ⟨hfollows, hsuffix⟩ := hfollows _ hword
  obtain ⟨lhs, u, hopens, hu, hlike'⟩ := (expr.recognized h).opens s word ws hs hfollows
  rcases ((hopens 0 (Nat.zero_le _) value t).mp hgives).stopsAt_or_lt with hstop | hlt
  · obtain ⟨token, v, htakes, -, -⟩ := Cursor.takes_of_words hu
    obtain ⟨suffix, hsuffix⟩ := Option.isSome_iff_exists.mp hsuffix
    exact Nat.not_lt_zero _ (hstop token v suffix htakes.next?_eq (htakes.kind_eq ▸ hsuffix))
  · rw [← lhs.leftDepth_bare, ← value.leftDepth_bare, hlike, hlike'] at hlt
    exact Nat.lt_irrefl _ hlt

/-- The statement has for its expression what is read there. -/
abbrev GivesStmt : Cursor → Stmt Token → Cursor → Prop :=
  MakesStmt fun s value t => s.expression.Gives value t

theorem ends_topStatement (s : Cursor) :
    s.topStatement.Ends fun stmt u => ∃ t, GivesStmt s stmt t ∧ u = t.skip .semicolon :=
  ends_statement (fun _ _ _ _ shorter h => ⟨shorter, h⟩) s _

/-- What stands behind a statement when it was read just so. -/
theorem GivesStmt.next {stmt : Stmt α} (hwritable : ∀ node ∈ stmt.nodes, node.Writable)
    {s t : Cursor} {value : Stmt Token} (h : GivesStmt s value t) (hlike : stmt.Like value)
    {word : Word} {ws : List Word} (hs : s.words = stmt.spelling ++ word :: ws) :
    if stmt.isBareLeave then word.1 ∈ leaveEnders else word.1 ∉ attachers := by
  cases h with
  | bind hword hname hsign hvalue =>
    cases stmt with
    | bind _ target expr =>
      obtain ⟨-, hs⟩ := List.cons.inj (hword.words_eq.1.symm.trans hs)
      obtain ⟨-, hs⟩ := List.cons.inj (hname.words_eq.1.symm.trans hs)
      obtain ⟨-, hs⟩ := List.cons.inj (hsign.words_eq.1.symm.trans hs)
      have hexpr := (forall_mem_cons.mp (forall_mem_cons.mp hwritable).2).2
      exact Expr.notMem_attachers_of_gives hexpr hs hvalue (Stmt.bind.inj hlike).2.2
    | leave _ value => cases value <;> cases hlike
    | _ => cases hlike
  | leave hword hend =>
    cases stmt with
    | leave _ value =>
      cases value with
      | none =>
        obtain ⟨-, hs⟩ := List.cons.inj (hword.words_eq.1.symm.trans hs)
        obtain ⟨token, u, htakes, -, -⟩ := Cursor.takes_of_words hs
        rw [Cursor.endsReturn, Cursor.atEnd, Cursor.kind?,
          Cursor.peek?_of_next? htakes.next?_eq] at hend
        simp only [Option.map_some, Option.getD_some, htakes.kind_eq, Bool.or_eq_true, beq_iff_eq,
          Option.some.injEq] at hend
        change word.1 ∈ leaveEnders
        rcases hend with (hend | hend) | hend <;> simp [leaveEnders, hend]
      | some _ => cases hlike
    | _ => cases hlike
  | leaveWith hword hvalue =>
    cases stmt with
    | leave _ value =>
      cases value with
      | none => cases hlike
      | some expr =>
        obtain ⟨-, hs⟩ := List.cons.inj (hword.words_eq.1.symm.trans hs)
        have hexpr := (forall_mem_cons.mp hwritable).2
        exact Expr.notMem_attachers_of_gives hexpr hs hvalue
          (Option.some.inj (Stmt.leave.inj hlike).2)
    | _ => cases hlike
  | expr _ hvalue =>
    cases stmt with
    | expr _ expr =>
      have hexpr := (forall_mem_cons.mp hwritable).2
      exact Expr.notMem_attachers_of_gives hexpr hs hvalue (Stmt.expr.inj hlike).2
    | leave _ value => cases value <;> cases hlike
    | _ => cases hlike

/-- If a line is read just so, the next one is not taken for a part of it. -/
theorem Stmt.precedes_of_gives {stmt next : Stmt α} {rest : List (Stmt α)}
    (hwritable : ∀ node ∈ stmt.nodes, node.Writable) {s t : Cursor} {value : Stmt Token}
    (hs : s.words = spellLines (stmt :: next :: rest)) (hgives : s.topStatement.Gives value t)
    (hlike : stmt.Like value) : stmt.Precedes next := by
  obtain ⟨shorter, hok⟩ := hgives
  obtain ⟨u, hstmt, -⟩ := ends_topStatement s value t shorter hok
  obtain ⟨first, ws, hspelling, hattacher, hstarter⟩ := next.spelling_eq_attacher
  rw [spellLines_cons, spellLines_cons, hspelling, List.cons_append] at hs
  have hnext := GivesStmt.next hwritable hstmt hlike hs
  have hkinds : ∀ kind ∈ leaveEnders, kind ∉ attachers ∧ kind ∉ lineStarters := by decide
  split at hnext
  · obtain ⟨hattachers, hstarters⟩ := hkinds _ hnext
    cases hattaches : next.attaches with
    | true => exact absurd (hattacher hattaches) hattachers
    | false => exact absurd (hstarter hattaches) hstarters
  · next hleave =>
    refine ⟨Bool.eq_false_iff.mpr hleave, Bool.eq_false_iff.mpr fun hattaches => ?_⟩
    exact hnext (hattacher hattaches)

theorem isChain_of_program {stmts : List (Stmt α)}
    (hwritable : ∀ node ∈ nodesOfStatements stmts, node.Writable) : ∀ {s : Cursor},
    s.words = spellLines stmts → s.program.1.errors = [] →
    List.Forall₂ Stmt.Like stmts s.program.1.statements → stmts.IsChain Stmt.Precedes := by
  induction stmts with
  | nil => exact fun _ _ _ => .nil
  | cons stmt rest ih =>
    intro s hs herrors hlikes
    obtain ⟨hstmt, hrest⟩ := forall_mem_append.mp hwritable
    have hend := not_atEnd_of_lines hs
    cases hfirst : s.topStatement with
    | fail error t within =>
      rw [program_of_fail hend hfirst] at herrors
      cases herrors
    | ok value t shorter =>
      rw [program_of_ok hend hfirst] at herrors hlikes
      obtain ⟨hlike, hlikes⟩ := List.forall₂_cons.mp hlikes
      have hgives : s.topStatement.Gives value t := ⟨shorter, hfirst⟩
      have hnext : ∀ next ∈ rest.head?, stmt.Precedes next := by
        intro next hmem
        obtain ⟨others, rfl⟩ := List.head?_eq_some_iff.mp hmem
        exact Stmt.precedes_of_gives hstmt hs hgives hlike
      -- the reader is where the next line begins, as it reads the line in one way only
      obtain ⟨value', t', hgives', ht, -⟩ := exists_gives_topStatement hstmt hnext hs
      obtain ⟨-, rfl⟩ := hgives.unique hgives'
      exact List.isChain_cons.mpr ⟨hnext, ih hrest ht herrors hlikes⟩

/-! ### Programs -/

namespace Program

theorem render_eq_of_like {program again : Program Token}
    (h : List.Forall₂ Stmt.Like program.statements again.statements) :
    again.render = program.render := by
  rw [render, render, ← renderStatements_relabel (fun _ => ()) again.statements,
    relabelStatements_of_like h, renderStatements_relabel]

theorem words_render {program : Program Token}
    (h : ∀ node ∈ nodesOfStatements program.statements, node.Legible) :
    (Cursor.ofSource program.render).words = spellLines program.statements :=
  words_renderStatements h

theorem like_of_render {program again : Program Token}
    (h : ∀ node ∈ nodesOfStatements program.statements, node.Legible)
    (h' : ∀ node ∈ nodesOfStatements again.statements, node.Legible)
    (hrender : again.render = program.render) :
    List.Forall₂ Stmt.Like program.statements again.statements := by
  have hbare := relabelStatements_eq_of_intercalate h' h hrender
  rw [relabelStatements_eq_map, relabelStatements_eq_map, ← List.forall₂_eq_eq_eq,
    List.forall₂_map_left_iff, List.forall₂_map_right_iff] at hbare
  exact hbare.flip

/-- A program reads back from its text, without errors and with the same number of statements, and
has the same text again, just if it is reprintable. -/
theorem reprints_iff {source : String} (h : (ofSource source).errors = []) :
    ((ofSource (ofSource source).render).errors = [] ∧
        (ofSource (ofSource source).render).statements.length
          = (ofSource source).statements.length ∧
        (ofSource (ofSource source).render).render = (ofSource source).render) ↔
      (ofSource source).Reprintable := by
  have hlegible := legible_ofSource h
  have hwords := words_render hlegible
  constructor
  · rintro ⟨herrors, -, hrender⟩
    have hlikes := like_of_render hlegible (legible_ofSource herrors) hrender
    have htests : ∀ node ∈ nodesOfStatements (ofSource source).statements,
        node.testsOperation = true := by
      have htested := tested_ofSource herrors
      rw [hwords] at htested
      exact testsStatements _ (tested_of_flatten (tested_append.mp htested).1)
    exact ⟨htests, isChain_of_program (fun node hnode => ⟨hlegible node hnode, htests node hnode⟩)
      hwords herrors hlikes⟩
  · rintro ⟨htests, hlines⟩
    obtain ⟨herrors, hlikes⟩ := program_of_lines
      (fun node hnode => ⟨hlegible node hnode, htests node hnode⟩) hlines hwords
    exact ⟨herrors, hlikes.length_eq.symm, render_eq_of_like hlikes⟩

/-- Lines that begin with braces, a conditional in parentheses, and a `return` in the last line. -/
theorem reprints_iff_lines :
    let source := "let f = fn(x) \x7b if ((!x)) \x7b return \x7d; (x); [x] \x7d \x7b\x7d; f(1)(2);"
      ++ "(if (f == (3)) \x7b \x7d else \x7b \"(\" \x7d); return"
    (ofSource source).errors = [] ∧ (ofSource source).Reprintable ∧
      (ofSource (ofSource source).render).errors = [] ∧
        (ofSource (ofSource source).render).statements.length
          = (ofSource source).statements.length ∧
        (ofSource (ofSource source).render).render = (ofSource source).render := by
  intro source
  have herrors : (ofSource source).errors = [] := by decide +kernel
  have hreprintable : (ofSource source).Reprintable := by decide +kernel
  exact ⟨herrors, hreprintable, (reprints_iff herrors).mpr hreprintable⟩

/-- A condition that is written without parentheses, a line that is taken for an operand or a call,
and one that is taken for a value to return. -/
theorem not_reprints :
    ((ofSource "if (x) \x7b \x7d").errors = [] ∧
      (ofSource (ofSource "if (x) \x7b \x7d").render).errors.length = 1) ∧
    ((ofSource "3 + 4; -5 * 5").errors = [] ∧
      (ofSource "3 + 4; -5 * 5").statements.length = 2 ∧
      (ofSource (ofSource "3 + 4; -5 * 5").render).statements.length = 1) ∧
    ((ofSource "return; x").errors = [] ∧ (ofSource "return; x").statements.length = 2 ∧
      (ofSource (ofSource "return; x").render).statements.length = 1) := by
  decide +kernel

end Program

end Grammar

end Scriptlet
