import Scriptlet.Proofs.Spelling

/-! # Words that readers recognize

A reader goes by the words in front of a cursor. Each rule says which words a phrase is recognized
from, given the words of its parts. A phrase that has no end of its own needs a word of certain
kinds behind it.
-/

namespace Scriptlet.Grammar

open Token (Word)
open Cursor (list entry statement)

namespace Cursor

/-- The words in front of the cursor. -/
def words (s : Cursor) : List Word :=
  s.tokens.map Token.word

theorem takes_of_words {s : Cursor} {kind : Token.Kind} {literal : String} {ws : List Word}
    (h : s.words = (kind, literal) :: ws) :
    ∃ token t, s.Takes kind token t ∧ token.literal = literal ∧ t.words = ws := by
  obtain ⟨tokens, depth⟩ := s
  cases tokens with
  | nil => cases h
  | cons token rest =>
    obtain ⟨kind', literal', span⟩ := token
    obtain ⟨hword, hrest⟩ := List.cons.inj h
    cases hword
    exact ⟨_, _, eat?_eq_some_iff.mpr ⟨rfl, rfl⟩, rfl, hrest⟩

end Cursor

/-- The kinds that an expression ends in front of. -/
def enders : List Token.Kind :=
  [.comma, .colon, .semicolon, .rightParen, .rightBracket, .rightBrace, .eof, .int, .ident, .string,
    .trueWord, .falseWord, .ifWord, .fnWord, .leftBrace, .letWord, .returnWord]

/-- The kinds that stand behind an operand. -/
def followers : List Token.Kind :=
  [.star, .slash, .plus, .minus, .less, .greater, .equal, .notEqual, .leftParen, .leftBracket]
    ++ enders

theorem stopsAt_of_words {s : Cursor} {word : Word} {ws : List Word} (h : s.words = word :: ws)
    (hword : word.1 ∈ enders) (least : Nat) : s.StopsAt least := by
  obtain ⟨token, t, htakes, -, -⟩ := Cursor.takes_of_words h
  have hnone : ∀ kind ∈ enders, Suffix.ofKind? kind = none := by decide
  intro token' t' suffix hnext hkind
  cases htakes.next?_eq.symm.trans hnext
  rw [htakes.kind_eq, hnone _ hword] at hkind
  cases hkind

/-- With a word of these kinds behind them, the reader takes just the words, and what it makes of
them has the property. -/
def Recognizes {β : Type} (gives : Cursor → β → Cursor → Prop) (follow : List Token.Kind)
    (ws : List Word) (P : β → Prop) : Prop :=
  ∀ s word rest, s.words = ws ++ word :: rest → word.1 ∈ follow →
    ∃ value t, gives s value t ∧ t.words = word :: rest ∧ P value

theorem Recognizes.imp {β : Type} {gives : Cursor → β → Cursor → Prop} {follow : List Token.Kind}
    {ws : List Word} {P Q : β → Prop} (h : Recognizes gives follow ws P)
    (himp : ∀ value, P value → Q value) : Recognizes gives follow ws Q := by
  intro s word rest hs hword
  obtain ⟨value, t, hgives, ht, hvalue⟩ := h s word rest hs hword
  exact ⟨value, t, hgives, ht, himp value hvalue⟩

theorem Recognizes.mono {β : Type} {gives : Cursor → β → Cursor → Prop}
    {follow fewer : List Token.Kind} {ws : List Word} {P : β → Prop}
    (h : Recognizes gives follow ws P) (hsub : ∀ kind ∈ fewer, kind ∈ follow) :
    Recognizes gives fewer ws P :=
  fun s word rest hs hword => h s word rest hs (hsub _ hword)

/-! ### Lists -/

section Lists

variable {β γ : Type} {item : ∀ n, Reader n β} {like : γ → β → Prop} {closing : Token.Kind}
  {wss : List (List Word)} {xs : List γ}

/-- An item begins with a word that the list does not end with. -/
def LeadsItem (closing : Token.Kind) (ws : List Word) : Prop :=
  ∃ first tail, ws = first :: tail ∧ first.1 ≠ closing

theorem recognizes_commaSeparated (hclosing : closing ∈ closers)
    (h : List.Forall₂ (fun ws x => Recognizes (Yields item) enders ws (like x)) wss xs)
    (hne : wss ≠ []) (follow : List Token.Kind) :
    Recognizes (Yields fun n => Cursor.commaSeparated (item n) closing) follow
      (Token.Kind.comma.separated wss ++ [closing.word]) (List.Forall₂ like xs) := by
  have hends : ∀ kind ∈ closers, kind ∈ enders ∧ kind ≠ .comma := by decide
  induction h with
  | nil => exact absurd rfl hne
  | cons hfirst hrest ih =>
    intro s word rest hs hword
    cases hrest with
    | nil =>
      simp only [Token.Kind.separated_singleton, List.append_assoc, List.cons_append,
        List.nil_append] at hs
      obtain ⟨first, t, hgives, ht, hlike⟩ := hfirst s _ _ hs (hends _ hclosing).1
      obtain ⟨token, u, htakes, -, hu⟩ := Cursor.takes_of_words ht
      exact ⟨[first], u, yields_last (hends _ hclosing).2 hgives htakes, hu, .cons hlike .nil⟩
    | cons _ _ =>
      simp only [Token.Kind.separated_cons_cons, List.append_assoc, List.cons_append,
        List.nil_append] at hs ih
      obtain ⟨first, t, hgives, ht, hlike⟩ := hfirst s _ _ hs (by decide)
      obtain ⟨comma, u, htakes, -, hu⟩ := Cursor.takes_of_words ht
      obtain ⟨values, v, hvalues, hv, hlikes⟩ := ih (List.cons_ne_nil _ _) u word rest (by
        rw [hu]; simp) hword
      exact ⟨first :: values, v, yields_more hgives htakes hvalues, hv, .cons hlike hlikes⟩

theorem recognizes_list (closing : Token.Kind) (hclosing : closing ∈ closers)
    (h : List.Forall₂ (fun ws x => Recognizes (Yields item) enders ws (like x)) wss xs)
    (hleads : ∀ ws ∈ wss, LeadsItem closing ws) (follow : List Token.Kind) :
    Recognizes (Yields fun n => list (item n) closing) follow
      (Token.Kind.comma.separated wss ++ [closing.word]) (List.Forall₂ like xs) := by
  intro s word rest hs hword
  by_cases hnil : wss = []
  · subst hnil
    cases h
    obtain ⟨token, t, htakes, -, ht⟩ := Cursor.takes_of_words hs
    exact ⟨[], t, yields_list_nil htakes, ht, .nil⟩
  · obtain ⟨values, t, hvalues, ht, hlike⟩ :=
      recognizes_commaSeparated hclosing h hnil follow s word rest hs hword
    refine ⟨values, t, yields_list ?_ hvalues, ht, hlike⟩
    obtain ⟨ws, more, rfl⟩ := List.exists_cons_of_ne_nil hnil
    obtain ⟨first, tail, rfl, hfirst⟩ := hleads ws List.mem_cons_self
    obtain ⟨tail', htail⟩ : ∃ tail', Token.Kind.comma.separated ((first :: tail) :: more)
        = first :: tail' := by
      cases more <;> exact ⟨_, rfl⟩
    rw [htail] at hs
    obtain ⟨token, u, htakes, -, -⟩ := Cursor.takes_of_words hs
    exact htakes.eat?_eq_none hfirst

end Lists

/-! ### Expressions -/

section Expressions

/-- The reading of whole expressions. -/
abbrev YieldsExpr : Cursor → Expr Token → Cursor → Prop :=
  Yields fun n => above n 0

theorem YieldsExpr.gives {s t : Cursor} {value : Expr Token} (h : YieldsExpr s value t) :
    s.expression.Gives value t :=
  h _ (Nat.lt_succ_self _)

variable {P Q : Expr Token → Prop} {ws xs : List Word} {follow : List Token.Kind}

/-- An operand that an expression ends with is all of the expression. -/
theorem Recognizes.whole (h : Recognizes Opens followers ws P) :
    Recognizes YieldsExpr enders ws P := by
  intro s word rest hs hword
  obtain ⟨value, t, hopens, ht, hvalue⟩ :=
    h s word rest hs (List.mem_append_right _ hword)
  exact ⟨value, t, fun _ _ => hopens.expression (stopsAt_of_words ht hword 0), ht, hvalue⟩

theorem recognizes_int {literal : String} {value : Int64} (h : integer? literal = some value) :
    Recognizes Opens follow [(.int, literal)] fun expr => ∃ token, expr = .int token value := by
  intro s word rest hs _
  obtain ⟨token, t, htakes, rfl, ht⟩ := Cursor.takes_of_words hs
  exact ⟨_, t, opens_of_first (first_int htakes h), ht, token, rfl⟩

theorem recognizes_bool (value : Bool) :
    Recognizes Opens follow [(boolKind value).word] fun expr =>
      ∃ token, expr = .bool token value := by
  intro s word rest hs _
  obtain ⟨token, t, htakes, -, ht⟩ := Cursor.takes_of_words hs
  exact ⟨_, t, opens_of_first (first_bool htakes), ht, token, rfl⟩

theorem recognizes_name (name : String) :
    Recognizes Opens follow [(.ident, name)] fun expr => ∃ token, expr = .name token name := by
  intro s word rest hs _
  obtain ⟨token, t, htakes, rfl, ht⟩ := Cursor.takes_of_words hs
  exact ⟨_, t, opens_of_first (first_name htakes), ht, token, rfl⟩

theorem recognizes_string (text : String) :
    Recognizes Opens follow [(.string, text)] fun expr => ∃ token, expr = .string token text := by
  intro s word rest hs _
  obtain ⟨token, t, htakes, rfl, ht⟩ := Cursor.takes_of_words hs
  exact ⟨_, t, opens_of_first (first_string htakes), ht, token, rfl⟩

theorem recognizes_array {R : List (Expr Token) → Prop}
    (h : Recognizes (Yields fun n => list (above n 0) .rightBracket) follow ws R) :
    Recognizes Opens follow (Token.Kind.leftBracket.word :: ws) fun expr =>
      ∃ token elements, expr = .array token elements ∧ R elements := by
  intro s word rest hs hword
  obtain ⟨token, t, htakes, -, ht⟩ := Cursor.takes_of_words hs
  obtain ⟨elements, u, hyields, hu, helements⟩ := h t word rest ht hword
  exact ⟨_, u, opens_of_first (first_array htakes hyields), hu, token, elements, rfl, helements⟩

theorem recognizes_map {R : List (Expr Token × Expr Token) → Prop}
    (h : Recognizes (Yields fun n => list (entry (above n 0)) .rightBrace) follow ws R) :
    Recognizes Opens follow (Token.Kind.leftBrace.word :: ws) fun expr =>
      ∃ token entries, expr = .map token entries ∧ R entries := by
  intro s word rest hs hword
  obtain ⟨token, t, htakes, -, ht⟩ := Cursor.takes_of_words hs
  obtain ⟨entries, u, hyields, hu, hentries⟩ := h t word rest ht hword
  exact ⟨_, u, opens_of_first (first_map htakes hyields), hu, token, entries, rfl, hentries⟩

theorem recognizes_entry (hkey : Recognizes YieldsExpr enders ws P)
    (hvalue : Recognizes YieldsExpr enders xs Q) :
    Recognizes (Yields fun n => entry (above n 0)) enders (ws ++ Token.Kind.colon.word :: xs)
      fun pair => P pair.1 ∧ Q pair.2 := by
  intro s word rest hs hword
  rw [List.append_assoc, List.cons_append] at hs
  obtain ⟨key, t, hyields, ht, hP⟩ := hkey s _ _ hs (by decide)
  obtain ⟨colon, u, htakes, -, hu⟩ := Cursor.takes_of_words ht
  obtain ⟨value, v, hyields', hv, hQ⟩ := hvalue u word rest hu hword
  exact ⟨(key, value), v, yields_entry hyields.gives htakes hyields'.gives, hv, hP, hQ⟩

/-- What stands between parentheses is an operand. -/
theorem recognizes_grouped (h : Recognizes YieldsExpr enders ws P) :
    Recognizes Opens follow (grouped ws) P := by
  intro s word rest hs _
  simp only [grouped, List.cons_append, List.append_assoc, List.nil_append] at hs
  obtain ⟨opening, t, hopening, -, ht⟩ := Cursor.takes_of_words hs
  obtain ⟨value, u, hyields, hu, hP⟩ := h t _ _ ht (by decide)
  obtain ⟨closing, v, hclosing, -, hv⟩ := Cursor.takes_of_words hu
  exact ⟨value, v, opens_of_first (first_group hopening hyields.gives hclosing), hv, hP⟩

theorem recognizes_unary {op : UnaryOp} (h : Recognizes Opens followers ws P) :
    Recognizes YieldsExpr enders (op.kind.word :: ws) fun expr =>
      ∃ token operand, expr = .unary token op operand ∧ P operand := by
  intro s word rest hs hword
  obtain ⟨token, t, htakes, -, ht⟩ := Cursor.takes_of_words hs
  obtain ⟨operand, u, hopens, hu, hP⟩ := h t word rest ht (List.mem_append_right _ hword)
  have hpower : op.power ≤ suffixPower := by cases op <;> decide
  have hoperand := hopens.gives hpower (stopsAt_of_words hu hword op.power)
  have hunary := opens_of_first (first_unary htakes hoperand)
  exact ⟨_, u, fun _ _ => hunary.expression (stopsAt_of_words hu hword 0), hu, token, operand, rfl,
    hP⟩

theorem recognizes_binary {op : BinaryOp} (hlhs : Recognizes Opens followers ws P)
    (hrhs : Recognizes Opens followers xs Q) :
    Recognizes YieldsExpr enders (ws ++ op.kind.word :: xs) fun expr =>
      ∃ token lhs rhs, expr = .binary token op lhs rhs ∧ P lhs ∧ Q rhs := by
  intro s word rest hs hword
  rw [List.append_assoc, List.cons_append] at hs
  obtain ⟨lhs, t, hopens, ht, hP⟩ := hlhs s _ _ hs (by cases op <;> decide)
  obtain ⟨token, u, htakes, -, hu⟩ := Cursor.takes_of_words ht
  obtain ⟨rhs, v, hopens', hv, hQ⟩ := hrhs u word rest hu (List.mem_append_right _ hword)
  have hpower : op.rightPower ≤ suffixPower := by cases op <;> decide
  have hrhs := hopens'.gives hpower (stopsAt_of_words hv hword op.rightPower)
  have hbinary := hopens.binary htakes op.ofKind?_kind hrhs (stopsAt_of_words hv hword 0)
  exact ⟨_, v, fun _ _ => hbinary, hv, token, lhs, rhs, rfl, hP, hQ⟩

theorem recognizes_index (hcollection : Recognizes Opens followers ws P)
    (hposition : Recognizes YieldsExpr enders xs Q) :
    Recognizes YieldsExpr enders
      (ws ++ Token.Kind.leftBracket.word :: (xs ++ [Token.Kind.rightBracket.word])) fun expr =>
        ∃ token collection position,
          expr = .index token collection position ∧ P collection ∧ Q position := by
  intro s word rest hs hword
  simp only [List.append_assoc, List.cons_append, List.nil_append] at hs
  obtain ⟨collection, t, hopens, ht, hP⟩ := hcollection s _ _ hs (by decide)
  obtain ⟨token, u, htakes, -, hu⟩ := Cursor.takes_of_words ht
  obtain ⟨position, v, hyields, hv, hQ⟩ := hposition u _ _ hu (by decide)
  obtain ⟨closing, w, hclosing, -, hw⟩ := Cursor.takes_of_words hv
  have hindex := hopens.index htakes hyields.gives hclosing (stopsAt_of_words hw hword 0)
  exact ⟨_, w, fun _ _ => hindex, hw, token, collection, position, rfl, hP, hQ⟩

theorem recognizes_call {R : List (Expr Token) → Prop} (hcallee : Recognizes Opens followers ws P)
    (harguments : Recognizes (Yields fun n => list (above n 0) .rightParen) follow xs R) :
    Recognizes Opens follow (ws ++ Token.Kind.leftParen.word :: xs) fun expr =>
      ∃ token callee arguments, expr = .call token callee arguments ∧ P callee ∧ R arguments := by
  intro s word rest hs hword
  rw [List.append_assoc, List.cons_append] at hs
  obtain ⟨callee, t, hopens, ht, hP⟩ := hcallee s _ _ hs (by decide)
  obtain ⟨token, u, htakes, -, hu⟩ := Cursor.takes_of_words ht
  obtain ⟨arguments, v, hyields, hv, hR⟩ := harguments u word rest hu hword
  exact ⟨_, v, hopens.call htakes hyields, hv, token, callee, arguments, rfl, hP, hR⟩

/-- The reading of blocks. -/
abbrev YieldsBlock : Cursor → Block Token → Cursor → Prop :=
  Yields fun n => Cursor.block (above n 0)

theorem recognizes_branch {R : Block Token → Prop} (hcondition : Recognizes YieldsExpr enders ws P)
    (hconsequence : Recognizes YieldsBlock followers xs R) :
    Recognizes Opens followers (Token.Kind.ifWord.word :: (grouped ws ++ xs)) fun expr =>
      ∃ token condition consequence, expr = .branch token condition consequence none ∧
        P condition ∧ R consequence := by
  intro s word rest hs hword
  simp only [grouped, List.append_assoc, List.cons_append, List.nil_append] at hs
  obtain ⟨token, t, htakes, -, ht⟩ := Cursor.takes_of_words hs
  obtain ⟨opening, u, hopening, -, hu⟩ := Cursor.takes_of_words ht
  obtain ⟨condition, v, hyields, hv, hP⟩ := hcondition u _ _ hu (by decide)
  obtain ⟨closing, w, hclosing, -, hw⟩ := Cursor.takes_of_words hv
  obtain ⟨consequence, x, hblock, hx, hR⟩ := hconsequence w word rest hw hword
  obtain ⟨next, y, hnext, -, -⟩ := Cursor.takes_of_words hx
  have helse : x.eat? .elseWord = none := by
    refine hnext.eat?_eq_none ?_
    rintro heq
    exact absurd (heq ▸ hword) (by decide)
  exact ⟨_, x, opens_of_first
    (first_branch htakes hopening hyields.gives hclosing hblock helse), hx,
    token, condition, consequence, rfl, hP, hR⟩

theorem recognizes_branchElse {yws : List Word} {R S : Block Token → Prop}
    (hcondition : Recognizes YieldsExpr enders ws P)
    (hconsequence : Recognizes YieldsBlock [.elseWord] xs R)
    (halternative : Recognizes YieldsBlock follow yws S) :
    Recognizes Opens follow
      (Token.Kind.ifWord.word :: (grouped ws ++ (xs ++ Token.Kind.elseWord.word :: yws)))
      fun expr =>
        ∃ token condition consequence alternative,
          expr = .branch token condition consequence (some alternative) ∧
          P condition ∧ R consequence ∧ S alternative := by
  intro s word rest hs hword
  simp only [grouped, List.append_assoc, List.cons_append, List.nil_append] at hs
  obtain ⟨token, t, htakes, -, ht⟩ := Cursor.takes_of_words hs
  obtain ⟨opening, u, hopening, -, hu⟩ := Cursor.takes_of_words ht
  obtain ⟨condition, v, hyields, hv, hP⟩ := hcondition u _ _ hu (by decide)
  obtain ⟨closing, w, hclosing, -, hw⟩ := Cursor.takes_of_words hv
  obtain ⟨consequence, x, hblock, hx, hR⟩ := hconsequence w _ _ hw (by decide)
  obtain ⟨elseToken, y, helse, -, hy⟩ := Cursor.takes_of_words hx
  obtain ⟨alternative, z, hblock', hz, hS⟩ := halternative y word rest hy hword
  exact ⟨_, z, opens_of_first
    (first_branchElse htakes hopening hyields.gives hclosing hblock helse hblock'), hz,
    token, condition, consequence, alternative, rfl, hP, hR, hS⟩

theorem recognizes_binder (name : String) :
    Recognizes (Yields fun n (s : Cursor) (_ : s.size < n) => s.binder) follow [(.ident, name)]
      fun ident => ident.name = name := by
  intro s word rest hs _
  obtain ⟨token, t, htakes, hliteral, ht⟩ := Cursor.takes_of_words hs
  exact ⟨_, t, fun _ _ => gives_binder htakes, ht, hliteral⟩

theorem recognizes_function {R : List (Ident Token) → Prop} {S : Block Token → Prop}
    (hparameters : Recognizes
      (Yields fun n => list (fun (s : Cursor) (_ : s.size < n) => s.binder) .rightParen)
      [.leftBrace] ws R)
    (hbody : Recognizes YieldsBlock follow (Token.Kind.leftBrace.word :: xs) S) :
    Recognizes Opens follow
      (Token.Kind.fnWord.word :: Token.Kind.leftParen.word
        :: (ws ++ Token.Kind.leftBrace.word :: xs)) fun expr =>
        ∃ token parameters body,
          expr = .function token parameters body ∧ R parameters ∧ S body := by
  intro s word rest hs hword
  simp only [List.append_assoc, List.cons_append] at hs
  obtain ⟨token, t, htakes, -, ht⟩ := Cursor.takes_of_words hs
  obtain ⟨opening, u, hopening, -, hu⟩ := Cursor.takes_of_words ht
  obtain ⟨parameters, v, hyields, hv, hR⟩ := hparameters u _ _ hu (by decide)
  obtain ⟨body, w, hblock, hw, hS⟩ := hbody v word rest hv hword
  exact ⟨_, w, opens_of_first (first_function htakes hopening hyields hblock), hw,
    token, parameters, body, rfl, hR, hS⟩

end Expressions

/-! ### Statements -/

section Statements

variable {P : Expr Token → Prop} {ws : List Word}

/-- The kinds that a statement of a block ends in front of. -/
def stmtEnders : List Token.Kind :=
  [.semicolon, .rightBrace]

/-- The kinds that a `return` without a value ends in front of. -/
def leaveEnders : List Token.Kind :=
  [.semicolon, .rightBrace, .eof]

/-- The reading of a statement up to the semicolon that may follow it. -/
def YieldsStmt (s : Cursor) (stmt : Stmt Token) (t : Cursor) : Prop :=
  Yields (fun n => statement (above n 0)) s stmt (t.skip .semicolon)

theorem recognizes_bind {name : String} (h : Recognizes YieldsExpr enders ws P) :
    Recognizes YieldsStmt enders
      (Token.Kind.letWord.word :: (.ident, name) :: Token.Kind.assign.word :: ws) fun stmt =>
        ∃ token target value, stmt = .bind token target value ∧ target.name = name ∧ P value := by
  intro s word rest hs hword
  obtain ⟨token, t, htakes, -, ht⟩ := Cursor.takes_of_words hs
  obtain ⟨target, u, htarget, hname, hu⟩ := Cursor.takes_of_words ht
  obtain ⟨sign, v, hsign, -, hv⟩ := Cursor.takes_of_words hu
  obtain ⟨value, w, hyields, hw, hP⟩ := h v word rest hv hword
  exact ⟨_, w, yields_bind htakes htarget hsign hyields.gives, hw, token, _, value, rfl, hname, hP⟩

theorem recognizes_leave :
    Recognizes YieldsStmt leaveEnders [Token.Kind.returnWord.word] fun stmt =>
      ∃ token, stmt = .leave token none := by
  intro s word rest hs hword
  obtain ⟨token, t, htakes, -, ht⟩ := Cursor.takes_of_words hs
  obtain ⟨next, u, hnext, -, -⟩ := Cursor.takes_of_words ht
  have hend : t.endsReturn = true := by
    have hkinds : ∀ kind ∈ leaveEnders,
        (kind == .eof || kind == .semicolon || kind == .rightBrace) = true := by decide
    simpa [Cursor.endsReturn, Cursor.atEnd, Cursor.kind?, Cursor.peek?_of_next? hnext.next?_eq,
      hnext.kind_eq] using hkinds _ hword
  exact ⟨_, t, yields_leave htakes hend, ht, token, rfl⟩

/-- An expression begins with one of the words that it can begin with. -/
def LeadsExpr (ws : List Word) : Prop :=
  ∃ first tail, ws = first :: tail ∧ first.1 ∈ starters

theorem leadsExpr_cons {kind : Token.Kind} {literal : String} {tail : List Word}
    (h : kind ∈ starters) : LeadsExpr ((kind, literal) :: tail) :=
  ⟨_, tail, rfl, h⟩

theorem LeadsExpr.takes {s : Cursor} {rest : List Word} (h : LeadsExpr ws)
    (hs : s.words = ws ++ rest) : ∃ kind ∈ starters, ∃ token t, s.Takes kind token t := by
  obtain ⟨first, tail, rfl, hfirst⟩ := h
  obtain ⟨token, t, htakes, -, -⟩ := Cursor.takes_of_words hs
  exact ⟨_, hfirst, token, t, htakes⟩

theorem recognizes_leaveWith (h : Recognizes YieldsExpr enders ws P) (hleads : LeadsExpr ws) :
    Recognizes YieldsStmt enders (Token.Kind.returnWord.word :: ws) fun stmt =>
      ∃ token value, stmt = .leave token (some value) ∧ P value := by
  intro s word rest hs hword
  obtain ⟨token, t, htakes, -, ht⟩ := Cursor.takes_of_words hs
  obtain ⟨value, u, hyields, hu, hP⟩ := h t word rest ht hword
  have hend : ¬t.endsReturn = true := by
    have hkinds : ∀ kind ∈ starters,
        ¬(kind == .eof || kind == .semicolon || kind == .rightBrace) = true := by decide
    obtain ⟨kind, hkind, next, v, hnext⟩ := hleads.takes ht
    simpa [Cursor.endsReturn, Cursor.atEnd, Cursor.kind?, Cursor.peek?_of_next? hnext.next?_eq,
      hnext.kind_eq] using hkinds kind hkind
  exact ⟨_, u, yields_leaveWith htakes hend hyields.gives, hu, token, value, rfl, hP⟩

theorem recognizes_exprStmt (h : Recognizes YieldsExpr enders ws P) (hleads : LeadsExpr ws) :
    Recognizes YieldsStmt enders ws fun stmt =>
      ∃ token value, stmt = .expr token value ∧ P value := by
  intro s word rest hs hword
  obtain ⟨value, u, hyields, hu, hP⟩ := h s word rest hs hword
  obtain ⟨kind, hkind, token, t, htakes⟩ := hleads.takes hs
  have hkinds : ∀ kind ∈ starters, kind ≠ .letWord ∧ kind ≠ .returnWord := by decide
  obtain ⟨hlet, hreturn⟩ := hkinds kind hkind
  exact ⟨_, u, yields_expr htakes hlet hreturn hyields.gives, hu, token, value, rfl, hP⟩

/-- A statement begins with a word that a block does not end with. -/
def LeadsStmt (ws : List Word) : Prop :=
  ∃ first tail, ws = first :: tail ∧ first.1 ∉ [.rightBrace, .eof]

theorem skip_of_takes {s t : Cursor} {kind : Token.Kind} {token : Token}
    (h : s.Takes kind token t) : s.skip kind = t := by
  rw [Cursor.skip, h, Option.map_some, Option.getD_some]

theorem skip_of_takes_other {s t : Cursor} {kind other : Token.Kind} {token : Token}
    (h : s.Takes kind token t) (hne : kind ≠ other) : s.skip other = s := by
  rw [Cursor.skip, h.eat?_eq_none hne, Option.map_none, Option.getD_none]

theorem recognizes_body {γ : Type} {like : γ → Stmt Token → Prop} {wss : List (List Word)}
    {xs : List γ} (follow : List Token.Kind)
    (h : List.Forall₂
      (fun ws x => Recognizes YieldsStmt stmtEnders ws (like x) ∧ LeadsStmt ws) wss xs) :
    Recognizes YieldsBody follow
      (Token.Kind.semicolon.separated wss ++ [Token.Kind.rightBrace.word])
      (List.Forall₂ like xs) := by
  induction h with
  | nil =>
    intro s word rest hs _
    obtain ⟨token, t, htakes, -, ht⟩ := Cursor.takes_of_words hs
    exact ⟨[], t, yieldsBody_nil htakes, ht, .nil⟩
  | @cons ws x wss xs hfirst hrest ih =>
    intro s word rest hs hword
    obtain ⟨hfirst, first, tail, rfl, hlead⟩ := hfirst
    simp only [List.mem_cons, List.not_mem_nil, or_false, not_or] at hlead
    -- the semicolon behind the statement is taken, the closing brace is not
    obtain ⟨stmt, t, hyields, hskip, hlike⟩ : ∃ stmt t, YieldsStmt s stmt t ∧
        (t.skip .semicolon).words = Token.Kind.semicolon.separated wss
          ++ [Token.Kind.rightBrace.word] ++ word :: rest ∧ like x stmt := by
      cases hrest with
      | nil =>
        simp only [Token.Kind.separated_singleton, List.append_assoc, List.singleton_append] at hs
        obtain ⟨stmt, t, hyields, ht, hlike⟩ := hfirst s _ _ hs (by decide)
        obtain ⟨brace, u, hbrace, -, hu⟩ := Cursor.takes_of_words ht
        exact ⟨stmt, t, hyields, by rw [skip_of_takes_other hbrace (by decide), ht]; rfl, hlike⟩
      | cons _ _ =>
        simp only [Token.Kind.separated_cons_cons, List.append_assoc, List.cons_append] at hs
        obtain ⟨stmt, t, hyields, ht, hlike⟩ := hfirst s _ _ hs (by decide)
        obtain ⟨semicolon, u, hsemicolon, -, hu⟩ := Cursor.takes_of_words ht
        exact ⟨stmt, t, hyields, by rw [skip_of_takes hsemicolon, hu]; simp, hlike⟩
    obtain ⟨stmts, u, hbody, hu, hlikes⟩ := ih _ word rest hskip hword
    obtain ⟨tail', htail⟩ : ∃ tail', s.words = first :: tail' := by
      cases hrest <;> exact ⟨_, hs⟩
    obtain ⟨token, v, htakes, -, -⟩ := Cursor.takes_of_words htail
    exact ⟨stmt :: stmts, u, yieldsBody_cons htakes hlead.1 hlead.2 hyields hbody, hu,
      .cons hlike hlikes⟩

theorem recognizes_block {ws : List Word} {follow : List Token.Kind} {R : List (Stmt Token) → Prop}
    (h : Recognizes YieldsBody follow ws R) :
    Recognizes YieldsBlock follow (Token.Kind.leftBrace.word :: ws) fun block =>
      ∃ token body, block = .mk token body ∧ R body := by
  intro s word rest hs hword
  obtain ⟨token, t, htakes, -, ht⟩ := Cursor.takes_of_words hs
  obtain ⟨body, u, hbody, hu, hR⟩ := h t word rest ht hword
  exact ⟨_, u, yields_block htakes hbody, hu, token, body, rfl, hR⟩

end Statements

end Scriptlet.Grammar
