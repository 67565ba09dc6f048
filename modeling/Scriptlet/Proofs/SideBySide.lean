import Scriptlet.Proofs.Reading
import Scriptlet.Proofs.Relabel

/-! # Readings side by side

Two cursors that have the same tokens in front of them, but for the spans, are read to the same
phrases and errors, but for the spans. The tokens have to agree only as far as a phrase can reach,
which is not past a semicolon outside all braces.
-/

namespace Scriptlet.Grammar

/-- The kinds of token that no expression takes outside its blocks. -/
def stops : List Token.Kind :=
  [.semicolon, .eof]

theorem not_mem_stops_of_suffix {kind : Token.Kind} {suffix : Suffix}
    (h : Suffix.ofKind? kind = some suffix) : kind ∉ stops := by
  cases kind <;> first | decide | cases h

/-- A relation between cursors that go side by side, `Inside` the part where their tokens agree.
A semicolon may lead out of this part, where the cursors are no more than `Reached`. It does not do
so within braces. -/
structure Twin (place : Span → Span) (Inside Reached : Cursor → Cursor → Prop) : Prop where
  next : ∀ {s t}, Inside s t → ∃ token s' t', s.next? = some (token, s') ∧
    t.next? = some (token.mapSpan place, t') ∧ (token.kind = .semicolon → Reached s' t') ∧
      (token.kind ∉ stops → Inside s' t')
  depth : ∀ {s t}, Inside s t → t.depth = s.depth
  widen : ∀ {s t}, Inside s t → Reached s t
  narrow : ∀ {s t}, Reached s t → 0 < s.depth → Inside s t

namespace Outcome

variable {s t u v : Cursor} {α β γ δ : Type} {place : Span → Span} {f : α → β} {g : γ → δ}
  {Then Else : Cursor → Cursor → Prop}

/-- Both outcomes are phrases that are related by `f`, with the cursors behind them related by
`Then`, or both are errors that differ in the span, at cursors related by `Else`. -/
def Agree (place : Span → Span) (f : α → β) (Then Else : Cursor → Cursor → Prop) (x : Outcome s α)
    (y : Outcome t β) : Prop :=
  match x, y with
  | ok value s' _, ok value' t' _ => value' = f value ∧ Then s' t'
  | fail error s' _, fail error' t' _ => error' = error.mapSpan place ∧ Else s' t'
  | _, _ => False

theorem Agree.andThen {Next : Cursor → Cursor → Prop} {x : Outcome s α} {y : Outcome t β}
    {k : α → (u : Cursor) → u.size < s.size → Outcome s γ}
    {l : β → (u : Cursor) → u.size < t.size → Outcome t δ} (h : x.Agree place f Then Else y)
    (hnext : ∀ value s' hs t' ht, Then s' t' →
      (k value s' hs).Agree place g Next Else (l (f value) t' ht)) :
    (x.andThen k).Agree place g Next Else (y.andThen l) := by
  cases x with
  | ok value s' hs =>
    cases y with
    | ok value' t' ht =>
      obtain ⟨rfl, hthen⟩ := h
      exact hnext value s' hs t' ht hthen
    | fail error t' within => exact h.elim
  | fail error s' within =>
    cases y with
    | ok value' t' ht => exact h.elim
    | fail error' t' within' => exact h

theorem Agree.map {ε ζ : Type} {k : α → ε} {l : β → ζ} {h : ε → ζ} {x : Outcome s α}
    {y : Outcome t β} (hxy : x.Agree place f Then Else y)
    (hkl : ∀ value, l (f value) = h (k value)) :
    (x.map k).Agree place h Then Else (y.map l) :=
  hxy.andThen fun value _ _ _ _ hthen => ⟨hkl value, hthen⟩

theorem Agree.after {x : Outcome u α} {y : Outcome v β} (h : x.Agree place f Then Else y)
    (hu : u.size < s.size) (hv : v.size < t.size) :
    (x.after hu).Agree place f Then Else (y.after hv) := by
  cases x <;> cases y <;> exact h

theorem Agree.and_ends {x : Outcome s α} {y : Outcome t β} {P : Cursor → Prop}
    (h : x.Agree place f Then Else y) (hends : x.Ends fun _ s' => P s') :
    x.Agree place f (fun s' t' => Then s' t' ∧ P s') Else y := by
  cases x with
  | ok value s' hs =>
    cases y with
    | ok value' t' ht => exact ⟨h.1, h.2, hends value s' hs rfl⟩
    | fail error t' within => exact h.elim
  | fail error s' within =>
    cases y with
    | ok value' t' ht => exact h.elim
    | fail error' t' within' => exact h

end Outcome

/-- Side by side, both readers come to the same phrases and errors. -/
def Alike {α β : Type} {n m : Nat} (place : Span → Span) (f : α → β)
    (Inside : Cursor → Cursor → Prop) (read : Reader n α) (read' : Reader m β) : Prop :=
  ∀ s t hs ht, Inside s t → (read s hs).Agree place f Inside Inside (read' t ht)

open Cursor Token

namespace Twin

variable {place : Span → Span} {Inside Reached : Cursor → Cursor → Prop}
  (htwin : Twin place Inside Reached)

include htwin

section Tokens

variable {s t : Cursor} (h : Inside s t)

include h

theorem peek? : ∃ token, s.peek? = some token ∧ t.peek? = some (token.mapSpan place) := by
  obtain ⟨token, s', t', hs, ht, -⟩ := htwin.next h
  exact ⟨token, peek?_of_next? hs, peek?_of_next? ht⟩

theorem kind?_eq : t.kind? = s.kind? := by
  obtain ⟨token, hs, ht⟩ := htwin.peek? h
  rw [kind?, kind?, hs, ht]
  rfl

theorem atEnd_eq : t.atEnd = s.atEnd := by
  rw [atEnd, atEnd, htwin.kind?_eq h]

theorem endsReturn_eq : t.endsReturn = s.endsReturn := by
  rw [endsReturn, endsReturn, htwin.atEnd_eq h, htwin.kind?_eq h]

theorem unexpected_eq (kind : Token.Kind) :
    t.unexpected kind = (s.unexpected kind).mapSpan place := by
  obtain ⟨token, hs, ht⟩ := htwin.peek? h
  rw [unexpected, unexpected, htwin.kind?_eq h, hs, ht]
  rfl

theorem eat?_cases (kind : Token.Kind) :
    s.eat? kind = none ∧ t.eat? kind = none ∨ ∃ token s' t', s.eat? kind = some (token, s') ∧
      t.eat? kind = some (token.mapSpan place, t') ∧ (kind = .semicolon → Reached s' t') ∧
        (kind ∉ stops → Inside s' t') := by
  obtain ⟨token, s', t', hs, ht, hsemicolon, hinside⟩ := htwin.next h
  by_cases hkind : token.kind = kind
  · subst hkind
    exact Or.inr ⟨token, s', t', eat?_eq_some_iff.mpr ⟨hs, rfl⟩, eat?_eq_some_iff.mpr ⟨ht, rfl⟩,
      hsemicolon, hinside⟩
  · left
    constructor
    · simp [eat?, hs, hkind]
    · simp [eat?, ht, hkind, mapSpan]

theorem eat?_isSome_eq (kind : Token.Kind) : (t.eat? kind).isSome = (s.eat? kind).isSome := by
  rcases htwin.eat?_cases h kind with ⟨hs, ht⟩ | ⟨token, s', t', hs, ht, -⟩
  · rw [hs, ht]
  · rw [hs, ht]
    rfl

theorem inside_of_eat? {kind : Token.Kind} {token token' : Token} {s' t' : Cursor}
    (hs : s.eat? kind = some (token, s')) (ht : t.eat? kind = some (token', t'))
    (hkind : kind ∉ stops) : Inside s' t' := by
  rcases htwin.eat?_cases h kind with ⟨hnone, -⟩ | ⟨token, s', t', hs', ht', -, hinside⟩
  · rw [hnone] at hs
    cases hs
  · rw [hs'] at hs
    rw [ht'] at ht
    cases hs
    cases ht
    exact hinside hkind

theorem skip : Reached (s.skip .semicolon) (t.skip .semicolon) := by
  rcases htwin.eat?_cases h .semicolon with ⟨hs, ht⟩ | ⟨token, s', t', hs, ht, hreached, -⟩
  · simpa [Cursor.skip, hs, ht] using htwin.widen h
  · simpa [Cursor.skip, hs, ht] using hreached rfl

theorem stopsAt {least : Nat} (hstop : s.StopsAt least) : t.StopsAt least := by
  obtain ⟨token, s', t', hs, ht, -⟩ := htwin.next h
  intro token' t'' suffix hnext hkind
  cases ht.symm.trans hnext
  exact hstop token s' suffix hs hkind

theorem expect {kind : Token.Kind} (hkind : kind ∉ stops) :
    (s.expect kind).Agree place (mapSpan place) Inside Inside (t.expect kind) := by
  rcases htwin.eat?_cases h kind with ⟨hs, ht⟩ | ⟨token, s', t', hs, ht, -, hinside⟩
  · rw [expect_of_none hs, expect_of_none ht]
    exact ⟨htwin.unexpected_eq h kind, h⟩
  · rw [expect_of_some hs, expect_of_some ht]
    exact ⟨rfl, hinside hkind⟩

theorem binder :
    s.binder.Agree place (Ident.relabel (mapSpan place)) Inside Inside t.binder :=
  (htwin.expect h (by decide)).map fun _ => rfl

end Tokens

variable {n m : Nat}

section Lists

variable {α β : Type} {f : α → β} {read : Reader n α} {read' : Reader m β} {closing : Token.Kind}

theorem commaSeparated (hread : Alike place f Inside read read') (hclosing : closing ∉ stops)
    (s t : Cursor) (hs : s.size < n) (ht : t.size < m) (h : Inside s t) :
    (commaSeparated read closing s hs).Agree place (List.map f) Inside Inside
      (commaSeparated read' closing t ht) := by
  rw [Cursor.commaSeparated, Cursor.commaSeparated]
  refine (hread s t hs ht h).andThen fun first s₁ hs₁ t₁ ht₁ h₁ => ?_
  have hcomma := htwin.eat?_isSome_eq h₁ .comma
  split
  · next comma s₂ hleft =>
    split
    · next comma' t₂ hright =>
      have h₂ := htwin.inside_of_eat? h₁ hleft hright (by decide)
      have hs₂ : s₂.size < s.size := Nat.lt_trans (size_of_eat? hleft) hs₁
      refine Outcome.Agree.after ?_ _ _
      exact (commaSeparated hread hclosing s₂ t₂ _ _ h₂).map fun _ => rfl
    · next hright => simp [hleft, hright] at hcomma
  · next hleft =>
    split
    · next comma' t₂ hright => simp [hleft, hright] at hcomma
    · refine Outcome.Agree.after ?_ _ _
      exact (htwin.expect h₁ hclosing).map fun _ => rfl
termination_by s.size

theorem list (hread : Alike place f Inside read read') (hclosing : closing ∉ stops) :
    Alike place (List.map f) Inside (list read closing) (list read' closing) := by
  intro s t hs ht h
  rcases htwin.eat?_cases h closing with ⟨hleft, hright⟩ | ⟨token, s', t', hleft, hright, -, h'⟩
  · rw [list_of_none hs hleft, list_of_none ht hright]
    exact htwin.commaSeparated hread hclosing s t hs ht h
  · rw [list_of_some hs hleft, list_of_some ht hright]
    exact ⟨rfl, h' hclosing⟩

end Lists

section Phrases

variable {read : Reader n (Expr Token)} {read' : Reader m (Expr Token)}
  (hread : Alike place (Expr.relabel (mapSpan place)) Inside read read')

include hread

theorem entry :
    Alike place (fun pair => (pair.1.relabel (mapSpan place), pair.2.relabel (mapSpan place)))
      Inside (entry read) (entry read') := by
  intro s t hs ht h
  refine (hread s t hs ht h).andThen fun key s₁ hs₁ t₁ ht₁ h₁ => ?_
  refine ((htwin.expect h₁ (by decide)).after hs₁ ht₁).andThen fun colon s₂ hs₂ t₂ ht₂ h₂ => ?_
  exact ((hread s₂ t₂ _ _ h₂).after hs₂ ht₂).map fun _ => rfl

theorem binding (s t : Cursor) (hs : s.size < n) (ht : t.size < m) (h : Inside s t) :
    (binding read s hs).Agree place (Stmt.relabel (mapSpan place)) Inside Inside
      (binding read' t ht) := by
  refine (htwin.expect h (by decide)).andThen fun token s₁ hs₁ t₁ ht₁ h₁ => ?_
  refine ((htwin.binder h₁).after hs₁ ht₁).andThen fun target s₂ hs₂ t₂ ht₂ h₂ => ?_
  refine ((htwin.expect h₂ (by decide)).after hs₂ ht₂).andThen fun sign s₃ hs₃ t₃ ht₃ h₃ => ?_
  exact ((hread s₃ t₃ _ _ h₃).after hs₃ ht₃).map fun _ => rfl

theorem leaving (s t : Cursor) (hs : s.size < n) (ht : t.size < m) (h : Inside s t) :
    (leaving read s hs).Agree place (Stmt.relabel (mapSpan place)) Inside Inside
      (leaving read' t ht) := by
  refine (htwin.expect h (by decide)).andThen fun token s₁ hs₁ t₁ ht₁ h₁ => ?_
  rw [htwin.endsReturn_eq h₁]
  split
  · exact ⟨rfl, h₁⟩
  · refine Outcome.Agree.after ?_ _ _
    exact (hread s₁ t₁ _ _ h₁).map fun _ => by rw [Stmt.relabel]

omit hread in
theorem terminated {s t : Cursor} {x : Outcome s (Stmt Token)} {y : Outcome t (Stmt Token)}
    (hxy : x.Agree place (Stmt.relabel (mapSpan place)) Inside Inside y) :
    x.terminated.Agree place (Stmt.relabel (mapSpan place)) Reached Inside y.terminated :=
  hxy.andThen fun _ _ _ _ _ h => ⟨rfl, htwin.skip h⟩

/-- A statement may end with the semicolon that leads out of the part that agrees. -/
theorem statement (s t : Cursor) (hs : s.size < n) (ht : t.size < m) (h : Inside s t) :
    (statement read s hs).Agree place (Stmt.relabel (mapSpan place)) Reached Inside
      (statement read' t ht) := by
  obtain ⟨token, hpeek, hpeek'⟩ := htwin.peek? h
  simp only [Cursor.statement, hpeek, hpeek', mapSpan]
  split
  · exact htwin.terminated (htwin.binding hread s t hs ht h)
  · exact htwin.terminated (htwin.leaving hread s t hs ht h)
  · exact htwin.terminated ((hread s t hs ht h).map fun _ => rfl)

variable (hreads : ∀ s hs, (read s hs).Ends fun value t => Reads s (.item (.expr value)) t)

include hreads

/-- Within braces, statements stay where the tokens agree. -/
theorem statements {origin origin' s t : Cursor} (ho : s.size < origin.size)
    (ho' : t.size < origin'.size) (hs : s.size < n) (ht : t.size < m) (h : Inside s t)
    (hdepth : 0 < s.depth) :
    (statements read origin s ho hs).Agree place (List.map (Stmt.relabel (mapSpan place))) Inside
      Inside (statements read' origin' t ho' ht) := by
  rcases htwin.eat?_cases h .rightBrace with ⟨hleft, hright⟩ | ⟨brace, s₁, t₁, hleft, hright, -, h₁⟩
  · by_cases hend : s.atEnd = true
    · rw [statements_of_atEnd _ _ hleft hend,
        statements_of_atEnd _ _ hright ((htwin.atEnd_eq h).trans hend)]
      exact ⟨rfl, h⟩
    · rw [statements_of_more _ _ hleft hend,
        statements_of_more _ _ hright (by rwa [htwin.atEnd_eq h])]
      -- The statement opens as many braces as it closes, so its semicolon stands within them too.
      have hends : (Cursor.statement read s hs).Ends fun _ s₁ => 0 < s₁.depth := by
        intro stmt s₁ hs₁ hok
        obtain ⟨t, hstmt, rfl⟩ := reads_statement hreads s hs stmt s₁ hs₁ hok
        rw [depth_skip_semicolon]
        exact Nat.lt_of_lt_of_le hdepth hstmt.depth_le
      refine Outcome.Agree.after ?_ _ _
      refine ((htwin.statement hread s t hs ht h).and_ends hends).andThen
        fun first s₁ hs₁ t₁ ht₁ h₁ => ?_
      exact (statements _ _ _ _ (htwin.narrow h₁.1 h₁.2) h₁.2).map fun _ => rfl
  · rw [statements_of_closed _ _ hleft, statements_of_closed _ _ hright]
    exact ⟨rfl, h₁ (by decide)⟩
termination_by s.size

theorem block : Alike place (Block.relabel (mapSpan place)) Inside (block read) (block read') := by
  intro s t hs ht h
  have hends : (s.expect .leftBrace).Ends fun _ s₁ => 0 < s₁.depth := by
    intro token s₁ hs₁ hok
    rw [(ends_expect .leftBrace s token s₁ hs₁ hok).depth_eq]
    exact Nat.succ_pos _
  refine ((htwin.expect h (by decide)).and_ends hends).andThen fun token s₁ hs₁ t₁ ht₁ h₁ => ?_
  refine (htwin.statements hread hreads _ _ _ _ h₁.1 h₁.2).map fun stmts => ?_
  rw [Block.relabel, relabelStatements_eq_map]

theorem branch (token : Token) :
    Alike place (Expr.relabel (mapSpan place)) Inside (branch read token)
      (branch read' (token.mapSpan place)) := by
  intro s t hs ht h
  refine (htwin.expect h (by decide)).andThen fun opening s₁ hs₁ t₁ ht₁ h₁ => ?_
  refine ((hread s₁ t₁ _ _ h₁).after hs₁ ht₁).andThen fun condition s₂ hs₂ t₂ ht₂ h₂ => ?_
  refine ((htwin.expect h₂ (by decide)).after hs₂ ht₂).andThen fun closing s₃ hs₃ t₃ ht₃ h₃ => ?_
  refine ((htwin.block hread hreads s₃ t₃ _ _ h₃).after hs₃ ht₃).andThen
    fun consequence s₄ hs₄ t₄ ht₄ h₄ => ?_
  have helse := htwin.eat?_isSome_eq h₄ .elseWord
  split
  · next word s₅ hleft =>
    split
    · next word' t₅ hright =>
      have h₅ := htwin.inside_of_eat? h₄ hleft hright (by decide)
      refine Outcome.Agree.map (Outcome.Agree.after (htwin.block hread hreads s₅ t₅ _ _ h₅) _ _) ?_
      intro alternative
      rw [Expr.relabel, relabelAlternative]
    · next hright => simp [hleft, hright] at helse
  · next hleft =>
    split
    · next hright => simp [hleft, hright] at helse
    · refine ⟨?_, h₄⟩
      rw [Expr.relabel, relabelAlternative]

theorem function (token : Token) :
    Alike place (Expr.relabel (mapSpan place)) Inside (function read token)
      (function read' (token.mapSpan place)) := by
  intro s t hs ht h
  refine (htwin.expect h (by decide)).andThen fun opening s₁ hs₁ t₁ ht₁ h₁ => ?_
  have hbinder : Alike place (Ident.relabel (mapSpan place)) Inside
      (fun s (_ : s.size < n) => s.binder) fun t (_ : t.size < m) => t.binder :=
    fun s t _ _ h => htwin.binder h
  refine ((htwin.list hbinder (by decide) s₁ t₁ _ _ h₁).after hs₁ ht₁).andThen
    fun parameters s₂ hs₂ t₂ ht₂ h₂ => ?_
  refine ((htwin.block hread hreads s₂ t₂ _ _ h₂).after hs₂ ht₂).map fun body => ?_
  rw [Expr.relabel]

end Phrases

theorem operand {s t : Cursor} {whole : Reader s.size (Expr Token)}
    {whole' : Reader t.size (Expr Token)} {inner : UnaryOp → Reader s.size (Expr Token)}
    {inner' : UnaryOp → Reader t.size (Expr Token)} (h : Inside s t)
    (hwhole : Alike place (Expr.relabel (mapSpan place)) Inside whole whole')
    (hinner : ∀ op, Alike place (Expr.relabel (mapSpan place)) Inside (inner op) (inner' op))
    (hreads : ∀ s hs, (whole s hs).Ends fun value t => Reads s (.item (.expr value)) t) :
    (operand s whole inner).Agree place (Expr.relabel (mapSpan place)) Inside Inside
      (operand t whole' inner') := by
  obtain ⟨token, s', t', hs, ht, -, hinside⟩ := htwin.next h
  obtain ⟨_ | ⟨first, rest⟩, depth⟩ := s
  · cases hs
  obtain ⟨_ | ⟨first', rest'⟩, depth'⟩ := t
  · cases ht
  cases hs
  cases ht
  obtain ⟨kind, literal, span⟩ := token
  dsimp only at hinside
  dsimp only [Cursor.operand, next?]
  cases kind <;> dsimp only [mapSpan]
  case int =>
    cases integer? literal with
    | none => exact ⟨rfl, hinside (by decide)⟩
    | some value => exact ⟨by rw [Expr.relabel]; rfl, hinside (by decide)⟩
  case ident | string | trueWord | falseWord =>
    exact ⟨by rw [Expr.relabel]; rfl, hinside (by decide)⟩
  case bang | minus =>
    refine Outcome.Agree.after ?_ _ _
    exact (hinner _ _ _ _ _ (hinside (by decide))).map fun _ => by rw [Expr.relabel]; rfl
  case leftParen =>
    refine Outcome.Agree.after ?_ _ _
    refine (hwhole _ _ _ _ (hinside (by decide))).andThen fun value s₁ hs₁ t₁ ht₁ h₁ => ?_
    refine Outcome.Agree.after ?_ _ _
    exact (htwin.expect h₁ (by decide)).map fun _ => rfl
  case ifWord =>
    exact (htwin.branch hwhole hreads _ _ _ _ _ (hinside (by decide))).after _ _
  case fnWord =>
    exact (htwin.function hwhole hreads _ _ _ _ _ (hinside (by decide))).after _ _
  case leftBracket =>
    refine Outcome.Agree.after ?_ _ _
    refine (htwin.list hwhole (by decide) _ _ _ _ (hinside (by decide))).map fun elements => ?_
    rw [Expr.relabel, relabelAll_eq_map]
    rfl
  case leftBrace =>
    refine Outcome.Agree.after ?_ _ _
    refine (htwin.list (htwin.entry hwhole) (by decide) _ _ _ _ (hinside (by decide))).map
      fun entries => ?_
    rw [Expr.relabel, relabelEntries_eq_map]
    rfl
  all_goals exact ⟨rfl, h⟩

section Operators

variable {read : Nat → Reader n (Expr Token)} {read' : Nat → Reader m (Expr Token)}
  (hread : ∀ power, Alike place (Expr.relabel (mapSpan place)) Inside (read power) (read' power))

include hread

theorem suffixed (token : Token) (lhs : Expr Token) (suffix : Suffix) :
    Alike place (Expr.relabel (mapSpan place)) Inside (suffixed read token lhs suffix)
      (suffixed read' (token.mapSpan place) (lhs.relabel (mapSpan place)) suffix) := by
  intro s t hs ht h
  cases suffix with
  | binary op => exact (hread _ s t _ _ h).map fun rhs => by rw [Expr.relabel]
  | call =>
    refine (htwin.list (hread 0) (by decide) s t _ _ h).map fun arguments => ?_
    rw [Expr.relabel, relabelAll_eq_map]
  | index =>
    refine (hread 0 s t _ _ h).andThen fun position s₁ hs₁ t₁ ht₁ h₁ => ?_
    refine Outcome.Agree.after ?_ _ _
    exact (htwin.expect h₁ (by decide)).map fun _ => by rw [Expr.relabel]

theorem climb (least : Nat) {origin origin' s t : Cursor} (lhs : Expr Token)
    (ho : s.size < origin.size) (ho' : t.size < origin'.size) (hs : s.size < n) (ht : t.size < m)
    (h : Inside s t) :
    (climb read least origin lhs s ho hs).Agree place (Expr.relabel (mapSpan place)) Inside Inside
      (climb read' least origin' (lhs.relabel (mapSpan place)) t ho' ht) := by
  rcases s.stopsAt_or_power_ge least with hstop | ⟨token, s₁, suffix, hnext, hkind, hpower⟩
  · rw [climb_of_stopsAt hstop, climb_of_stopsAt (htwin.stopsAt h hstop)]
    exact ⟨rfl, h⟩
  · obtain ⟨token', s', t₁, hleft, hright, -, hinside⟩ := htwin.next h
    cases hnext.symm.trans hleft
    have hs₁ : s₁.size < s.size := size_lt_of_next? hleft
    have ht₁ : t₁.size < t.size := size_lt_of_next? hright
    rw [climb_of_power_ge ho hs hs₁ hleft hkind hpower,
      climb_of_power_ge ho' ht ht₁ hright hkind hpower]
    have h₁ : Inside s₁ t₁ := hinside (not_mem_stops_of_suffix hkind)
    refine Outcome.Agree.after ?_ _ _
    refine (htwin.suffixed hread token lhs suffix s₁ t₁ _ _ h₁).andThen
      fun value s₂ hs₂ t₂ ht₂ h₂ => ?_
    exact climb least value _ _ _ _ h₂
termination_by s.size

end Operators

theorem expressionAbove (least : Nat) (s t : Cursor) (h : Inside s t) :
    (s.expressionAbove least).Agree place (Expr.relabel (mapSpan place)) Inside Inside
      (t.expressionAbove least) := by
  have ih : ∀ power, Alike place (Expr.relabel (mapSpan place)) Inside
      (fun s₁ (_ : s₁.size < s.size) => s₁.expressionAbove power)
      fun t₁ (_ : t₁.size < t.size) => t₁.expressionAbove power :=
    fun power s₁ t₁ _ _ h₁ => expressionAbove power s₁ t₁ h₁
  rw [Cursor.expressionAbove, Cursor.expressionAbove]
  refine (htwin.operand h (ih 0) (fun op => ih op.power)
    fun s₁ _ => reads_expressionAbove 0 s₁).andThen fun lhs s₁ hs₁ t₁ ht₁ h₁ => ?_
  exact htwin.climb ih least lhs hs₁ ht₁ hs₁ ht₁ h₁
termination_by s.size

theorem topStatement {s t : Cursor} (h : Inside s t) :
    s.topStatement.Agree place (Stmt.relabel (mapSpan place)) Reached Inside t.topStatement :=
  htwin.statement (fun s₁ t₁ _ _ h₁ => htwin.expressionAbove 0 s₁ t₁ h₁) s t _ _ h

theorem recover (s t : Cursor) (h : Inside s t) : Reached s.recover t.recover := by
  obtain ⟨token, s₁, t₁, hs, ht, hreached, hinside⟩ := htwin.next h
  have hdepth : t₁.depth = s₁.depth := by
    rw [(next?_eq_some_iff.mp hs).2, (next?_eq_some_iff.mp ht).2, htwin.depth h, kind_mapSpan]
  have hs₁ : s₁.size < s.size := size_lt_of_next? hs
  rw [recover_of_next hs rfl, recover_of_next ht (kind_mapSpan place token), hdepth]
  by_cases heof : token.kind = .eof
  · rw [if_pos heof, if_pos heof]
    exact htwin.widen h
  rw [if_neg heof, if_neg heof]
  by_cases hsemicolon : token.kind = .semicolon
  · by_cases houtside : s₁.depth = 0
    · rw [if_pos ⟨hsemicolon, houtside⟩, if_pos ⟨hsemicolon, houtside⟩]
      exact hreached hsemicolon
    · -- Within braces neither a semicolon nor a closing brace ends what is skipped.
      simp only [houtside, and_false, if_false]
      exact recover s₁ t₁ (htwin.narrow (hreached hsemicolon) (Nat.pos_of_ne_zero houtside))
  · have h₁ : Inside s₁ t₁ := hinside (by simp [stops, hsemicolon, heof])
    simp only [hsemicolon, false_and, if_false]
    split
    · exact htwin.skip h₁
    · exact recover s₁ t₁ h₁
termination_by s.size

/-- Two programs are the same, but for the spans, up to where their tokens no longer agree or up to
the end of the input. -/
theorem program (s t : Cursor) (h : Reached s t) :
    ∃ (shared : Program Token) (s' t' : Cursor), s.program.1 = shared ++ s'.program.1 ∧
      t.program.1 = shared.mapSpans place ++ t'.program.1 ∧ Reached s' t' ∧
        (Inside s' t' → s'.atEnd = true) := by
  by_cases hgo : Inside s t ∧ ¬s.atEnd = true
  · obtain ⟨hinside, hend⟩ := hgo
    have hend' : ¬t.atEnd = true := by rwa [htwin.atEnd_eq hinside]
    have hagree := htwin.topStatement hinside
    cases hs : s.topStatement with
    | ok first s₁ hs₁ =>
      cases ht : t.topStatement with
      | ok first' t₁ ht₁ =>
        rw [hs, ht] at hagree
        obtain ⟨rfl, h₁⟩ := hagree
        obtain ⟨shared, s', t', hleft, hright, hrest⟩ := program s₁ t₁ h₁
        refine ⟨⟨[first], []⟩ ++ shared, s', t', ?_, ?_, hrest⟩
        · rw [program_of_ok hend hs, hleft]
          rfl
        · rw [program_of_ok hend' ht, hright]
          rfl
      | fail error t₁ within =>
        rw [hs, ht] at hagree
        exact hagree.elim
    | fail error s₁ within =>
      cases ht : t.topStatement with
      | ok first t₁ ht₁ =>
        rw [hs, ht] at hagree
        exact hagree.elim
      | fail error' t₁ within' =>
        rw [hs, ht] at hagree
        obtain ⟨rfl, h₁⟩ := hagree
        have hshorter : s₁.recover.size < s.size := size_recover_lt hend within
        obtain ⟨shared, s', t', hleft, hright, hrest⟩ :=
          program s₁.recover t₁.recover (htwin.recover s₁ t₁ h₁)
        refine ⟨⟨[], [error]⟩ ++ shared, s', t', ?_, ?_, hrest⟩
        · rw [program_of_fail hend hs, hleft]
          rfl
        · rw [program_of_fail hend' ht, hright]
          rfl
  · refine ⟨⟨[], []⟩, s, t, rfl, rfl, h, fun hinside => ?_⟩
    exact Decidable.not_not.mp fun hend => hgo ⟨hinside, hend⟩
termination_by s.size

end Twin

end Scriptlet.Grammar
