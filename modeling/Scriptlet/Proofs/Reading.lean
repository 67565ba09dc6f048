import Scriptlet.Proofs.Outcome
import Scriptlet.Proofs.Steps

/-! # Phrases and the tokens between two cursors

What a phrase is made of, without regard to binding powers: a phrase is read between two cursors if
its parts are, one after another. Everything that the readers accept is read in this sense, so what
follows from the shape of phrases alone is proved on this relation.
-/

namespace Scriptlet.Grammar

/-- The upcoming token is of the given kind, and the cursor behind it. -/
def Cursor.Takes (kind : Token.Kind) (s : Cursor) (token : Token) (t : Cursor) : Prop :=
  s.eat? kind = some (token, t)

namespace Cursor

theorem Takes.next?_eq {kind : Token.Kind} {s t : Cursor} {token : Token}
    (h : s.Takes kind token t) : s.next? = some (token, t) :=
  (eat?_eq_some_iff.mp h).1

theorem Takes.kind_eq {kind : Token.Kind} {s t : Cursor} {token : Token}
    (h : s.Takes kind token t) : token.kind = kind :=
  (eat?_eq_some_iff.mp h).2

theorem next?_eq_some_iff {s t : Cursor} {token : Token} :
    s.next? = some (token, t) ↔
      s.tokens = token :: t.tokens ∧ t.depth = token.kind.depthAfter s.depth := by
  obtain ⟨tokens, depth⟩ := s
  obtain ⟨rest, after⟩ := t
  constructor
  · intro h
    cases tokens with
    | nil => cases h
    | cons head tail =>
      cases h
      exact ⟨rfl, rfl⟩
  · rintro ⟨htokens, hdepth⟩
    cases htokens
    rw [show after = _ from hdepth]
    rfl

theorem Takes.tokens_eq {kind : Token.Kind} {s t : Cursor} {token : Token}
    (h : s.Takes kind token t) : s.tokens = token :: t.tokens :=
  (next?_eq_some_iff.mp h.next?_eq).1

theorem Takes.depth_eq {kind : Token.Kind} {s t : Cursor} {token : Token}
    (h : s.Takes kind token t) : t.depth = kind.depthAfter s.depth :=
  h.kind_eq ▸ (next?_eq_some_iff.mp h.next?_eq).2

theorem skip_cases (kind : Token.Kind) (s : Cursor) :
    s.skip kind = s ∨ ∃ token, s.Takes kind token (s.skip kind) := by
  cases heat : s.eat? kind with
  | none => exact Or.inl (by simp [skip, heat])
  | some step => exact Or.inr ⟨step.1, by simp [Takes, skip, heat]⟩

end Cursor

/-- What commas can stand between. -/
inductive Item where
  | expr (value : Expr Token)
  | entry (key value : Expr Token)
  | binder (ident : Ident Token)

def closers : List Token.Kind :=
  [.rightParen, .rightBracket, .rightBrace]

/-- The kinds of token that an expression begins with. -/
def starters : List Token.Kind :=
  [.int, .ident, .string, .trueWord, .falseWord, .bang, .minus, .leftParen, .ifWord, .fnWord,
    .leftBracket, .leftBrace]

inductive Phrase where
  | item (item : Item)
  /-- Items between commas with their closing token. -/
  | items (closing : Token.Kind) (items : List Item)
  /-- A statement without the semicolon after it. -/
  | stmt (stmt : Stmt Token)
  /-- The statements of a block with their closing brace. -/
  | body (stmts : List (Stmt Token))
  | block (block : Block Token)

def UnaryOp.kind : UnaryOp → Token.Kind
  | .not => .bang
  | .negate => .minus

open Cursor Item Phrase

inductive Reads : Cursor → Phrase → Cursor → Prop
  | int {s t token value} : s.Takes .int token t → integer? token.literal = some value →
      Reads s (item (expr (.int token value))) t
  | name {s t token} : s.Takes .ident token t →
      Reads s (item (expr (.name token token.literal))) t
  | string {s t token} : s.Takes .string token t →
      Reads s (item (expr (.string token token.literal))) t
  | trueWord {s t token} : s.Takes .trueWord token t →
      Reads s (item (expr (.bool token true))) t
  | falseWord {s t token} : s.Takes .falseWord token t →
      Reads s (item (expr (.bool token false))) t
  | unary {s t u token op operand} : s.Takes (UnaryOp.kind op) token t →
      Reads t (item (expr operand)) u → Reads s (item (expr (.unary token op operand))) u
  | group {s t u v opening closing inner} : s.Takes .leftParen opening t →
      Reads t (item (expr inner)) u → u.Takes .rightParen closing v →
      Reads s (item (expr inner)) v
  | array {s t u token elements} : s.Takes .leftBracket token t →
      Reads t (items .rightBracket (elements.map expr)) u →
      Reads s (item (expr (.array token elements))) u
  | map {s t u token entries} : s.Takes .leftBrace token t →
      Reads t (items .rightBrace (entries.map fun pair => entry pair.1 pair.2)) u →
      Reads s (item (expr (.map token entries))) u
  | branch {s t u v w x token opening closing condition consequence} :
      s.Takes .ifWord token t → t.Takes .leftParen opening u →
      Reads u (item (expr condition)) v → v.Takes .rightParen closing w →
      Reads w (block consequence) x →
      Reads s (item (expr (.branch token condition consequence none))) x
  | branchElse {s t u v w x y z token opening closing word condition consequence alternative} :
      s.Takes .ifWord token t → t.Takes .leftParen opening u →
      Reads u (item (expr condition)) v → v.Takes .rightParen closing w →
      Reads w (block consequence) x → x.Takes .elseWord word y → Reads y (block alternative) z →
      Reads s (item (expr (.branch token condition consequence (some alternative)))) z
  | function {s t u v w token opening parameters body} :
      s.Takes .fnWord token t → t.Takes .leftParen opening u →
      Reads u (items .rightParen (parameters.map binder)) v → Reads v (block body) w →
      Reads s (item (expr (.function token parameters body))) w
  | binary {s t u v token kind op lhs rhs} : Reads s (item (expr lhs)) t →
      t.Takes kind token u → Suffix.ofKind? kind = some (.binary op) →
      Reads u (item (expr rhs)) v → Reads s (item (expr (.binary token op lhs rhs))) v
  | call {s t u v token callee arguments} : Reads s (item (expr callee)) t →
      t.Takes .leftParen token u → Reads u (items .rightParen (arguments.map expr)) v →
      Reads s (item (expr (.call token callee arguments))) v
  | index {s t u v w token closing collection position} : Reads s (item (expr collection)) t →
      t.Takes .leftBracket token u → Reads u (item (expr position)) v →
      v.Takes .rightBracket closing w →
      Reads s (item (expr (.index token collection position))) w
  | entry {s t u v colon key value} : Reads s (item (expr key)) t → t.Takes .colon colon u →
      Reads u (item (expr value)) v → Reads s (item (entry key value)) v
  | binder {s t token} : s.Takes .ident token t → Reads s (item (binder ⟨token, token.literal⟩)) t
  | noItems {s t closing token} : closing ∈ closers → s.Takes closing token t →
      Reads s (items closing []) t
  | lastItem {s t u closing token first} : closing ∈ closers → Reads s (item first) t →
      t.Takes closing token u → Reads s (items closing [first]) u
  | moreItems {s t u v closing comma first second rest} : Reads s (item first) t →
      t.Takes .comma comma u → Reads u (items closing (second :: rest)) v →
      Reads s (items closing (first :: second :: rest)) v
  | bind {s t u v w token name sign value} : s.Takes .letWord token t → t.Takes .ident name u →
      u.Takes .assign sign v → Reads v (item (expr value)) w →
      Reads s (stmt (.bind token ⟨name, name.literal⟩ value)) w
  | leave {s t token} : s.Takes .returnWord token t → t.endsReturn = true →
      Reads s (stmt (.leave token none)) t
  | leaveWith {s t u token value} : s.Takes .returnWord token t → Reads t (item (expr value)) u →
      Reads s (stmt (.leave token (some value))) u
  | exprStmt {s t token value} : s.peek? = some token → Reads s (item (expr value)) t →
      Reads s (stmt (.expr token value)) t
  | bodyClosed {s t token} : s.Takes .rightBrace token t → Reads s (body []) t
  | bodyEnded {s} : s.atEnd = true → Reads s (body []) s
  | bodyMore {s t u first rest} : Reads s (stmt first) t →
      Reads (t.skip .semicolon) (body rest) u → Reads s (body (first :: rest)) u
  | block {s t u token stmts} : s.Takes .leftBrace token t → Reads t (body stmts) u →
      Reads s (block (.mk token stmts)) u

/-! ### What the readers accept -/

theorem ends_expect (kind : Token.Kind) (s : Cursor) :
    (s.expect kind).Ends fun token t => s.Takes kind token t := by
  rw [expect]
  split
  · next token t h => exact Outcome.ends_ok _ h
  · exact Outcome.ends_fail _

theorem reads_binder (s : Cursor) :
    s.binder.Ends fun ident t => Reads s (item (binder ident)) t :=
  (ends_expect .ident s).map fun _ _ h => .binder h

variable {n : Nat}

section Lists

variable {α : Type} {read : Reader n α} {f : α → Item} {closing : Token.Kind}

theorem reads_commaSeparated (hclosing : closing ∈ closers)
    (hread : ∀ s hs, (read s hs).Ends fun value t => Reads s (item (f value)) t)
    (s : Cursor) (hs : s.size < n) :
    (commaSeparated read closing s hs).Ends fun values t =>
      values ≠ [] ∧ Reads s (items closing (values.map f)) t := by
  rw [commaSeparated]
  refine (hread s hs).andThen fun first t ht hfirst => ?_
  split
  · next comma u hcomma =>
    have hu : u.size < s.size := Nat.lt_trans (size_of_eat? hcomma) ht
    have ih := reads_commaSeparated hclosing hread u (Nat.lt_trans hu hs)
    refine (ih.map fun rest v h => ⟨List.cons_ne_nil first rest, ?_⟩).after _
    obtain ⟨hne, hrest⟩ := h
    obtain ⟨second, others, rfl⟩ := List.exists_cons_of_ne_nil hne
    exact .moreItems hfirst hcomma hrest
  · refine ((ends_expect closing t).map fun token u h => ?_).after ht
    exact ⟨List.cons_ne_nil _ _, .lastItem hclosing hfirst h⟩
termination_by s.size

theorem reads_list (hclosing : closing ∈ closers)
    (hread : ∀ s hs, (read s hs).Ends fun value t => Reads s (item (f value)) t)
    (s : Cursor) (hs : s.size < n) :
    (list read closing s hs).Ends fun values t => Reads s (items closing (values.map f)) t := by
  rw [list]
  split
  · next token t h => exact Outcome.ends_ok _ (.noItems hclosing h)
  · intro values t ht h
    exact (reads_commaSeparated hclosing hread s hs values t ht h).2

end Lists

section Statements

/-- A statement is made up of expressions that are related in this way to where they stand. The
semicolon after it is not part of it. -/
inductive MakesStmt (P : Cursor → Expr Token → Cursor → Prop) : Cursor → Stmt Token → Cursor → Prop
  | bind {s t u v w token name sign value} : s.Takes .letWord token t → t.Takes .ident name u →
      u.Takes .assign sign v → P v value w →
      MakesStmt P s (.bind token ⟨name, name.literal⟩ value) w
  | leave {s t token} : s.Takes .returnWord token t → t.endsReturn = true →
      MakesStmt P s (.leave token none) t
  | leaveWith {s t u token value} : s.Takes .returnWord token t → P t value u →
      MakesStmt P s (.leave token (some value)) u
  | expr {s t token value} : s.peek? = some token → P s value t →
      MakesStmt P s (.expr token value) t

variable {read : Reader n (Expr Token)} {P : Cursor → Expr Token → Cursor → Prop}
  (hread : ∀ s hs, (read s hs).Ends (P s))

include hread

theorem ends_binding (s : Cursor) (hs : s.size < n) :
    (binding read s hs).Ends (MakesStmt P s) := by
  refine (ends_expect .letWord s).andThen fun token t ht htoken => ?_
  refine Outcome.Ends.andThen (((ends_expect .ident t).map
    (Q := fun ident u => ∃ name, ident = ⟨name, name.literal⟩ ∧ t.Takes .ident name u)
    fun name u h => ⟨name, rfl, h⟩).after ht) fun target u hu htarget => ?_
  obtain ⟨name, rfl, hname⟩ := htarget
  refine ((ends_expect .assign u).after hu).andThen fun sign v hv hsign => ?_
  exact ((hread v _).after hv).map fun value w hvalue => .bind htoken hname hsign hvalue

theorem ends_leaving (s : Cursor) (hs : s.size < n) :
    (leaving read s hs).Ends (MakesStmt P s) := by
  refine (ends_expect .returnWord s).andThen fun token t ht htoken => ?_
  split
  · next hend => exact Outcome.ends_ok _ (.leave htoken hend)
  · exact ((hread t _).map fun value u hvalue => .leaveWith htoken hvalue).after ht

theorem ends_statement (s : Cursor) (hs : s.size < n) :
    (statement read s hs).Ends fun stmt u =>
      ∃ t, MakesStmt P s stmt t ∧ u = t.skip .semicolon := by
  have hterminated {x : Outcome s (Stmt Token)} (hx : x.Ends (MakesStmt P s)) :
      x.terminated.Ends fun stmt u => ∃ t, MakesStmt P s stmt t ∧ u = t.skip .semicolon :=
    hx.andThen fun stmt t ht h => Outcome.ends_ok _ ⟨t, h, rfl⟩
  rw [statement]
  split
  · exact Outcome.ends_fail _
  · next token hpeek =>
    split
    · exact hterminated (ends_binding hread s hs)
    · exact hterminated (ends_leaving hread s hs)
    · exact hterminated ((hread s hs).map fun value t h => .expr hpeek h)

omit hread

theorem MakesStmt.reads {s t : Cursor} {stmt : Stmt Token}
    (h : MakesStmt (fun s value t => Reads s (item (.expr value)) t) s stmt t) :
    Reads s (.stmt stmt) t := by
  cases h with
  | bind htoken hname hsign hvalue => exact .bind htoken hname hsign hvalue
  | leave htoken hend => exact .leave htoken hend
  | leaveWith htoken hvalue => exact .leaveWith htoken hvalue
  | expr hpeek hvalue => exact .exprStmt hpeek hvalue

end Statements

section Phrases

variable {read : Reader n (Expr Token)}
  (hread : ∀ s hs, (read s hs).Ends fun value t => Reads s (item (expr value)) t)

include hread

theorem reads_entry (s : Cursor) (hs : s.size < n) :
    (entry read s hs).Ends fun pair t => Reads s (item (.entry pair.1 pair.2)) t := by
  refine (hread s hs).andThen fun key t ht hkey => ?_
  refine ((ends_expect .colon t).after ht).andThen fun colon u hu hcolon => ?_
  exact ((hread u _).after hu).map fun value v hvalue => .entry hkey hcolon hvalue

theorem reads_statement (s : Cursor) (hs : s.size < n) :
    (statement read s hs).Ends fun stmt u =>
      ∃ t, Reads s (.stmt stmt) t ∧ u = t.skip .semicolon := by
  intro stmt u shorter h
  obtain ⟨t, hmakes, rfl⟩ := ends_statement hread s hs stmt u shorter h
  exact ⟨t, hmakes.reads, rfl⟩

theorem reads_statements (origin s : Cursor) (ho : s.size < origin.size) (hs : s.size < n) :
    (statements read origin s ho hs).Ends fun stmts t => Reads s (body stmts) t := by
  rw [statements]
  split
  · next token t h => exact Outcome.ends_ok _ (.bodyClosed h)
  · split
    · next hend => exact Outcome.ends_ok _ (.bodyEnded hend)
    · refine ((reads_statement hread s hs).andThen fun first t ht hfirst => ?_).after ho
      obtain ⟨u, hfirst, rfl⟩ := hfirst
      exact (reads_statements s _ ht _).map fun rest v hrest => .bodyMore hfirst hrest
termination_by s.size

theorem reads_block (s : Cursor) (hs : s.size < n) :
    (Cursor.block read s hs).Ends fun block t => Reads s (.block block) t := by
  refine (ends_expect .leftBrace s).andThen fun token t ht htoken => ?_
  exact (reads_statements hread s t ht _).map fun stmts u h => .block htoken h

theorem reads_branch {token : Token} {r : Cursor} (s : Cursor) (hs : s.size < n)
    (htoken : r.Takes .ifWord token s) :
    (Cursor.branch read token s hs).Ends fun value t => Reads r (item (expr value)) t := by
  refine (ends_expect .leftParen s).andThen fun opening t ht hopening => ?_
  refine ((hread t _).after ht).andThen fun condition u hu hcondition => ?_
  refine ((ends_expect .rightParen u).after hu).andThen fun closing v hv hclosing => ?_
  refine ((reads_block hread v _).after hv).andThen fun consequence w hw hconsequence => ?_
  split
  · next word x hword =>
    refine ((reads_block hread x _).after _).map fun alternative y halternative => ?_
    exact .branchElse htoken hopening hcondition hclosing hconsequence hword halternative
  · exact Outcome.ends_ok _ (.branch htoken hopening hcondition hclosing hconsequence)

theorem reads_function {token : Token} {r : Cursor} (s : Cursor) (hs : s.size < n)
    (htoken : r.Takes .fnWord token s) :
    (Cursor.function read token s hs).Ends fun value t => Reads r (item (expr value)) t := by
  refine (ends_expect .leftParen s).andThen fun opening t ht hopening => ?_
  refine ((reads_list (by decide) (fun s _ => reads_binder s) t _).after ht).andThen
    fun parameters u hu hparameters => ?_
  exact ((reads_block hread u _).after hu).map fun body v hbody =>
    .function htoken hopening hparameters hbody

end Phrases

theorem reads_operand (s : Cursor) {whole : Reader s.size (Expr Token)}
    {inner : UnaryOp → Reader s.size (Expr Token)}
    (hwhole : ∀ t ht, (whole t ht).Ends fun value u => Reads t (item (expr value)) u)
    (hinner : ∀ op t ht, (inner op t ht).Ends fun value u => Reads t (item (expr value)) u) :
    (operand s whole inner).Ends fun value t => Reads s (item (expr value)) t := by
  rw [operand]
  split
  · exact Outcome.ends_fail _
  · next token t hnext =>
    have htakes : ∀ kind, token.kind = kind → s.Takes kind token t :=
      fun kind hkind => eat?_eq_some_iff.mpr ⟨hnext, hkind⟩
    dsimp only
    split
    · next hkind =>
      split
      · next value hvalue => exact Outcome.ends_ok _ (.int (htakes .int hkind) hvalue)
      · exact Outcome.ends_fail _
    · next hkind => exact Outcome.ends_ok _ (.name (htakes .ident hkind))
    · next hkind => exact Outcome.ends_ok _ (.string (htakes .string hkind))
    · next hkind => exact Outcome.ends_ok _ (.trueWord (htakes .trueWord hkind))
    · next hkind => exact Outcome.ends_ok _ (.falseWord (htakes .falseWord hkind))
    · next hkind =>
      refine ((hinner .not t _).map fun value u h => ?_).after _
      exact .unary (htakes .bang hkind) h
    · next hkind =>
      refine ((hinner .negate t _).map fun value u h => ?_).after _
      exact .unary (htakes .minus hkind) h
    · next hkind =>
      refine ((hwhole t _).andThen fun value u hu h => ?_).after _
      refine ((ends_expect .rightParen u).map fun closing v hclosing => ?_).after hu
      exact .group (htakes .leftParen hkind) h hclosing
    · next hkind => exact (reads_branch hwhole t _ (htakes .ifWord hkind)).after _
    · next hkind => exact (reads_function hwhole t _ (htakes .fnWord hkind)).after _
    · next hkind =>
      refine ((reads_list (by decide) hwhole t _).map fun elements u h => ?_).after _
      exact .array (htakes .leftBracket hkind) h
    · next hkind =>
      refine ((reads_list (by decide) (reads_entry hwhole) t _).map fun entries u h => ?_).after _
      exact .map (htakes .leftBrace hkind) h
    · exact Outcome.ends_fail _

section Operators

variable {read : Nat → Reader n (Expr Token)}
  (hread : ∀ power s hs, (read power s hs).Ends fun value t => Reads s (item (expr value)) t)

include hread

theorem reads_suffixed {token : Token} {suffix : Suffix} {lhs : Expr Token} {r s t : Cursor}
    (hlhs : Reads r (item (expr lhs)) s) (hnext : s.next? = some (token, t))
    (hkind : Suffix.ofKind? token.kind = some suffix) (ht : t.size < n) :
    (suffixed read token lhs suffix t ht).Ends fun value u => Reads r (item (expr value)) u := by
  have htakes : s.Takes token.kind token t := eat?_eq_some_iff.mpr ⟨hnext, rfl⟩
  cases suffix with
  | binary op => exact (hread _ t _).map fun rhs u hrhs => .binary hlhs htakes hkind hrhs
  | call =>
    have hparen : token.kind = .leftParen := by
      cases hcase : token.kind <;> rw [hcase] at hkind <;> cases hkind
    exact (reads_list (by decide) (hread 0) t _).map fun arguments u h =>
      .call hlhs (hparen ▸ htakes) h
  | index =>
    have hbracket : token.kind = .leftBracket := by
      cases hcase : token.kind <;> rw [hcase] at hkind <;> cases hkind
    refine (hread 0 t _).andThen fun position u hu hposition => ?_
    refine ((ends_expect .rightBracket u).map fun closing v hclosing => ?_).after hu
    exact .index hlhs (hbracket ▸ htakes) hposition hclosing

theorem reads_climb (least : Nat) {r origin s : Cursor} {lhs : Expr Token}
    (hlhs : Reads r (item (expr lhs)) s) (ho : s.size < origin.size) (hs : s.size < n) :
    (climb read least origin lhs s ho hs).Ends fun value t => Reads r (item (expr value)) t := by
  rw [climb]
  split
  · exact Outcome.ends_ok _ hlhs
  · next token t hnext =>
    have ht : t.size < s.size := size_lt_of_next? hnext
    dsimp only
    split
    · exact Outcome.ends_ok _ hlhs
    · next suffix hkind =>
      split
      · exact Outcome.ends_ok _ hlhs
      · refine Outcome.Ends.after ?_ _
        refine (reads_suffixed hread hlhs hnext hkind _).andThen fun value u hu hvalue => ?_
        exact reads_climb least hvalue hu _
termination_by s.size

end Operators

theorem reads_expressionAbove (least : Nat) (s : Cursor) :
    (s.expressionAbove least).Ends fun value t => Reads s (item (expr value)) t := by
  have ih : ∀ power (t : Cursor), t.size < s.size →
      (t.expressionAbove power).Ends fun value u => Reads t (item (expr value)) u :=
    fun power t _ => reads_expressionAbove power t
  rw [expressionAbove]
  refine (reads_operand s (fun t ht => ih 0 t ht) fun op t ht => ih op.power t ht).andThen
    fun lhs t ht hlhs => ?_
  exact reads_climb (fun power t ht => ih power t ht) least hlhs ht ht
termination_by s.size

/-! ### Braces -/

/-- The braces that a phrase closes without having opened them. -/
def Phrase.closes : Phrase → Nat
  | items .rightBrace _ | body _ => 1
  | _ => 0

theorem depth_skip_semicolon (s : Cursor) : (s.skip .semicolon).depth = s.depth := by
  rcases s.skip_cases .semicolon with hsame | ⟨token, htakes⟩
  · rw [hsame]
  · rw [htakes.depth_eq]
    rfl

theorem Cursor.Takes.depth_le {kind : Token.Kind} {s t : Cursor} {token : Token}
    (h : s.Takes kind token t) (hkind : kind ≠ .rightBrace) : s.depth ≤ t.depth := by
  rw [h.depth_eq]
  cases kind <;> first | exact Nat.le_refl _ | exact Nat.le_succ _ | contradiction

theorem Cursor.Takes.depth_le_items {closing : Token.Kind} {s t : Cursor} {token : Token}
    (h : s.Takes closing token t) (parts : List Item) :
    s.depth ≤ t.depth + (items closing parts).closes := by
  by_cases hbrace : closing = .rightBrace
  · subst hbrace
    have hdepth : t.depth = s.depth - 1 := h.depth_eq
    rw [Phrase.closes]
    omega
  · exact Nat.le_add_right_of_le (h.depth_le hbrace)

theorem closes_items (closing : Token.Kind) (parts others : List Item) :
    (items closing parts).closes = (items closing others).closes := by
  cases closing <;> rfl

theorem kind_ne_rightBrace_of_binary {kind : Token.Kind} {op : BinaryOp}
    (h : Suffix.ofKind? kind = some (.binary op)) : kind ≠ .rightBrace := by
  rintro rfl
  cases h

/-- Between the ends of a phrase no more braces are closed than it closes itself. -/
theorem Reads.depth_le {s t : Cursor} {phrase : Phrase} (h : Reads s phrase t) :
    s.depth ≤ t.depth + phrase.closes := by
  induction h with
  | int h _ | name h | string h | trueWord h | falseWord h | binder h | leave h _ =>
    exact h.depth_le (by decide)
  | @unary _ _ _ _ op _ h _ hoperand =>
    have hop : op.kind ≠ .rightBrace := by cases op <;> decide
    exact Nat.le_trans (h.depth_le hop) hoperand
  | group hopening _ hclosing hinner =>
    exact Nat.le_trans (hopening.depth_le (by decide))
      (Nat.le_trans hinner (hclosing.depth_le (by decide)))
  | array htoken _ helements => exact Nat.le_trans (htoken.depth_le (by decide)) helements
  | @map _ t _ _ _ htoken _ hentries =>
    have hopened : t.depth = _ + 1 := htoken.depth_eq
    simp only [Phrase.closes] at hentries ⊢
    omega
  | branch htoken hopening _ hclosing _ hcondition hconsequence =>
    refine Nat.le_trans (htoken.depth_le (by decide)) ?_
    refine Nat.le_trans (hopening.depth_le (by decide)) (Nat.le_trans hcondition ?_)
    exact Nat.le_trans (hclosing.depth_le (by decide)) hconsequence
  | branchElse htoken hopening _ hclosing _ hword _ hcondition hconsequence halternative =>
    refine Nat.le_trans (htoken.depth_le (by decide)) ?_
    refine Nat.le_trans (hopening.depth_le (by decide)) (Nat.le_trans hcondition ?_)
    refine Nat.le_trans (hclosing.depth_le (by decide)) (Nat.le_trans hconsequence ?_)
    exact Nat.le_trans (hword.depth_le (by decide)) halternative
  | function htoken hopening _ _ hparameters hbody =>
    refine Nat.le_trans (htoken.depth_le (by decide)) ?_
    exact Nat.le_trans (hopening.depth_le (by decide)) (Nat.le_trans hparameters hbody)
  | binary _ htoken hop _ hlhs hrhs =>
    have hkind := kind_ne_rightBrace_of_binary hop
    exact Nat.le_trans hlhs (Nat.le_trans (htoken.depth_le hkind) hrhs)
  | call _ htoken _ hcallee harguments =>
    exact Nat.le_trans hcallee (Nat.le_trans (htoken.depth_le (by decide)) harguments)
  | index _ htoken _ hclosing hcollection hposition =>
    refine Nat.le_trans hcollection (Nat.le_trans (htoken.depth_le (by decide)) ?_)
    exact Nat.le_trans hposition (hclosing.depth_le (by decide))
  | entry _ hcolon _ hkey hvalue =>
    exact Nat.le_trans hkey (Nat.le_trans (hcolon.depth_le (by decide)) hvalue)
  | noItems hclosing h => exact h.depth_le_items []
  | lastItem hclosing _ h hfirst => exact Nat.le_trans hfirst (h.depth_le_items _)
  | moreItems _ hcomma _ hfirst hrest =>
    rw [closes_items]
    exact Nat.le_trans hfirst (Nat.le_trans (hcomma.depth_le (by decide)) hrest)
  | bind htoken hname hsign _ hvalue =>
    refine Nat.le_trans (htoken.depth_le (by decide)) ?_
    refine Nat.le_trans (hname.depth_le (by decide)) ?_
    exact Nat.le_trans (hsign.depth_le (by decide)) hvalue
  | leaveWith h _ hvalue => exact Nat.le_trans (h.depth_le (by decide)) hvalue
  | exprStmt _ _ hvalue => exact hvalue
  | bodyClosed h => exact h.depth_le_items []
  | bodyEnded _ => exact Nat.le_succ _
  | bodyMore _ _ hfirst hrest =>
    rw [depth_skip_semicolon] at hrest
    exact Nat.le_trans hfirst hrest
  | @block _ t _ _ _ htoken _ hbody =>
    have hopened : t.depth = _ + 1 := htoken.depth_eq
    simp only [Phrase.closes] at hbody ⊢
    omega

/-! ### Programs -/

theorem reads_topStatement (s : Cursor) :
    s.topStatement.Ends fun stmt u => ∃ t, Reads s (.stmt stmt) t ∧ u = t.skip .semicolon :=
  reads_statement (fun t _ => reads_expressionAbove 0 t) s _

/-- The statements between two cursors, and nothing behind them but the end of input. -/
inductive ReadsProgram : Cursor → List (Stmt Token) → Cursor → Prop
  | done {s} : s.atEnd = true → ReadsProgram s [] s
  | more {s t u first rest} : Reads s (.stmt first) t → ReadsProgram (t.skip .semicolon) rest u →
      ReadsProgram s (first :: rest) u

theorem reads_program (s : Cursor) (h : s.program.1.errors = []) :
    ReadsProgram s s.program.1.statements s.program.2 := by
  by_cases hend : s.atEnd = true
  · rw [program_of_atEnd hend]
    exact .done hend
  · cases hfirst : s.topStatement with
    | fail error t within =>
      rw [program_of_fail hend hfirst] at h
      cases h
    | ok first t shorter =>
      obtain ⟨u, hreads, rfl⟩ := reads_topStatement s first t shorter hfirst
      rw [program_of_ok hend hfirst] at h ⊢
      exact .more hreads (reads_program _ h)
termination_by s.size

end Scriptlet.Grammar
