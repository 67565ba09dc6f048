import Scriptlet.Proofs.Braces
import Scriptlet.Proofs.Consumption
import Scriptlet.Proofs.Success

/-! # Input with its missing braces

Blocks may end with the input. Where the braces that close them follow instead, all that was read
without them is read again, to the same phrases: a block ends in front of its brace just as it does
at the end of the input, and no phrase goes on with a closing brace.
-/

namespace Scriptlet.Grammar

namespace Cursor

/-- Two cursors in front of the same tokens, behind which the input ends for the first. For the
second there are closing braces, as many as are open behind these tokens. -/
inductive Completed : Cursor → Cursor → Prop
  | token {s t s' t' token} : token.kind ≠ .eof → s.next? = some (token, s') →
      t.next? = some (token, t') → Completed s' t' → Completed s t
  | brace {s t t' brace} : s.atEnd = true → 0 < t.depth → t.Takes .rightBrace brace t' →
      Completed s t' → Completed s t
  | done {s t} : s.atEnd = true → t.atEnd = true → t.depth = 0 → Completed s t

theorem atEnd_eq_of_next? {s t : Cursor} {token : Token} (h : s.next? = some (token, t)) :
    s.atEnd = (token.kind == .eof) := by
  rw [atEnd, kind?, peek?_of_next? h]
  rfl

theorem eat?_eq_none_of_atEnd {s : Cursor} {kind : Token.Kind} (h : s.atEnd = true)
    (hkind : kind ≠ .eof) : s.eat? kind = none := by
  cases heat : s.eat? kind with
  | none => rfl
  | some step =>
    obtain ⟨hnext, heq⟩ := eat?_eq_some_iff.mp heat
    rw [atEnd_eq_of_next? hnext, heq] at h
    exact absurd (eq_of_beq h) hkind

theorem eat?_eq_none_of_next? {s t s' t' : Cursor} {token : Token} {kind : Token.Kind}
    (hs : s.next? = some (token, s')) (ht : t.next? = some (token, t'))
    (h : s.eat? kind = none) : t.eat? kind = none := by
  have hne : token.kind ≠ kind := by
    intro heq
    rw [eat?_eq_some_iff.mpr ⟨hs, heq⟩] at h
    cases h
  have htakes : t.Takes token.kind token t' := eat?_eq_some_iff.mpr ⟨ht, rfl⟩
  exact htakes.eat?_eq_none hne

theorem stopsAt_of_atEnd {s : Cursor} (least : Nat) (h : s.atEnd = true) : s.StopsAt least := by
  intro token t suffix hnext hkind
  rw [atEnd_eq_of_next? hnext] at h
  rw [eq_of_beq h] at hkind
  cases hkind

theorem Takes.stopsAt {s t : Cursor} {token : Token} {kind : Token.Kind}
    (h : s.Takes kind token t) (hkind : Suffix.ofKind? kind = none) (least : Nat) :
    s.StopsAt least := by
  intro token' t' suffix hnext hsuffix
  cases h.next?_eq.symm.trans hnext
  rw [h.kind_eq, hkind] at hsuffix
  cases hsuffix

namespace Completed

variable {s t s' : Cursor} {kind : Token.Kind} {token : Token}

theorem next (h : Completed s t) (hend : ¬s.atEnd = true) :
    ∃ token s' t', token.kind ≠ .eof ∧ s.next? = some (token, s') ∧ t.next? = some (token, t') ∧
      Completed s' t' := by
  cases h with
  | token hkind hs ht h => exact ⟨_, _, _, hkind, hs, ht, h⟩
  | brace hs | done hs => exact absurd hs hend

theorem takes (h : Completed s t) (hkind : kind ≠ .eof) (hs : s.Takes kind token s') :
    ∃ t', t.Takes kind token t' ∧ Completed s' t' := by
  obtain ⟨_, _, t', -, hs', ht, h'⟩ := h.next (hs.not_atEnd hkind)
  cases hs.next?_eq.symm.trans hs'
  exact ⟨t', eat?_eq_some_iff.mpr ⟨ht, hs.kind_eq⟩, h'⟩

theorem eat?_eq_none (h : Completed s t) (hkind : kind ∉ [.eof, .rightBrace])
    (hs : s.eat? kind = none) : t.eat? kind = none := by
  simp only [List.mem_cons, List.not_mem_nil, or_false, not_or] at hkind
  cases h with
  | token _ hnext hnext' _ => exact eat?_eq_none_of_next? hnext hnext' hs
  | brace _ _ ht _ => exact ht.eat?_eq_none (Ne.symm hkind.2)
  | done _ ht _ => exact eat?_eq_none_of_atEnd ht hkind.1

theorem not_atEnd (h : Completed s t) (hend : ¬s.atEnd = true) : ¬t.atEnd = true := by
  obtain ⟨token, s', t', -, hs, ht, -⟩ := h.next hend
  rwa [atEnd_eq_of_next? ht, ← atEnd_eq_of_next? hs]

theorem endsReturn_eq (h : Completed s t) : t.endsReturn = s.endsReturn := by
  cases h with
  | token _ hs ht _ =>
    rw [endsReturn, endsReturn, atEnd_eq_of_next? hs, atEnd_eq_of_next? ht, kind?, kind?,
      peek?_of_next? hs, peek?_of_next? ht]
  | brace hs _ ht _ =>
    have hkind : t.kind? = some .rightBrace := by
      rw [kind?, peek?_of_next? ht.next?_eq, Option.map_some, ht.kind_eq]
    simp [endsReturn, hs, hkind]
  | done hs ht _ => simp [endsReturn, hs, ht]

theorem stopsAt {least : Nat} (h : Completed s t) (hstop : s.StopsAt least) : t.StopsAt least := by
  cases h with
  | token _ hs ht _ =>
    intro token' t' suffix hnext hkind
    cases ht.symm.trans hnext
    exact hstop _ _ suffix hs hkind
  | brace _ _ ht _ => exact ht.stopsAt rfl least
  | done _ ht _ => exact stopsAt_of_atEnd least ht

theorem skip (h : Completed s t) : Completed (s.skip .semicolon) (t.skip .semicolon) := by
  cases hs : s.eat? .semicolon with
  | none =>
    have ht := h.eat?_eq_none (by decide) hs
    simpa [Cursor.skip, hs, ht] using h
  | some step =>
    obtain ⟨t', ht, h'⟩ := h.takes (by decide) (show s.Takes .semicolon step.1 step.2 from hs)
    have heat : t.eat? .semicolon = some (step.1, t') := ht
    simpa [Cursor.skip, hs, heat] using h'

end Completed

end Cursor

open Cursor

namespace Outcome

variable {s t u v : Cursor} {α β : Type}

/-- What the first reading accepts, the second one accepts as well, and it has the missing braces
behind it. -/
def Leads (x : Outcome s α) (y : Outcome t α) : Prop :=
  ∀ value s', x.Gives value s' → ∃ t', y.Gives value t' ∧ Completed s' t'

theorem leads_fail {error : Error} {rest : Cursor} (within : rest = s ∨ rest.size < s.size)
    (y : Outcome t α) : (fail error rest within : Outcome s α).Leads y := by
  rintro value s' ⟨_, h⟩
  cases h

theorem leads_ok (value : α) {s' t' : Cursor} (h : Completed s' t') (hs : s'.size < s.size)
    (ht : t'.size < t.size) :
    (ok value s' hs : Outcome s α).Leads (ok value t' ht : Outcome t α) := by
  rintro value' s'' ⟨_, heq⟩
  cases heq
  exact ⟨t', ⟨ht, rfl⟩, h⟩

theorem Leads.andThen {x : Outcome s α} {y : Outcome t α}
    {k : α → (u : Cursor) → u.size < s.size → Outcome s β}
    {l : α → (u : Cursor) → u.size < t.size → Outcome t β} (h : x.Leads y)
    (hnext : ∀ value s' hs t' ht, y.Gives value t' → Completed s' t' →
      (k value s' hs).Leads (l value t' ht)) :
    (x.andThen k).Leads (y.andThen l) := by
  intro result s'' hresult
  obtain ⟨value, s', hs, hx, hk⟩ := hresult.exists_of_andThen
  obtain ⟨t', hy, h'⟩ := h value s' hx
  obtain ⟨ht, hok⟩ := hy
  obtain ⟨t'', hl, h''⟩ := hnext value s' hs t' ht ⟨ht, hok⟩ h' result s'' hk
  exact ⟨t'', Gives.andThen ⟨ht, hok⟩ fun _ => hl, h''⟩

theorem Leads.map {x : Outcome s α} {y : Outcome t α} (h : x.Leads y) (f : α → β) :
    (x.map f).Leads (y.map f) :=
  h.andThen fun value _ hs _ ht _ h' => leads_ok (f value) h' hs ht

theorem Leads.after {x : Outcome u α} {y : Outcome v α} (h : x.Leads y) (hu : u.size < s.size)
    (hv : v.size < t.size) : (x.after hu).Leads (y.after hv) := by
  intro value s' hvalue
  obtain ⟨t', hy, h'⟩ := h value s' hvalue.of_after
  exact ⟨t', hy.after hv, h'⟩

/-- Nothing is accepted at the end of the input. -/
theorem Orderly.not_atEnd {x : Outcome s α} (hx : x.Orderly) {value : α} (h : x.Gives value t) :
    ¬s.atEnd = true := by
  obtain ⟨ht, rfl⟩ := h
  obtain ⟨first, taken, htokens, htaken⟩ := Crosses.exists_cons hx ht
  have hkind := (htaken first List.mem_cons_self).1
  simpa [atEnd, kind?, peek?, htokens] using hkind

end Outcome

/-- With the missing braces, the second reader accepts what the first one does without them. -/
def Reader.Leads {α : Type} {n m : Nat} (read : Reader n α) (read' : Reader m α) : Prop :=
  ∀ s t hs ht, Completed s t → (read s hs).Leads (read' t ht)

namespace Cursor.Completed

variable {n m : Nat} {s t : Cursor}

theorem expect {kind : Token.Kind} (hkind : kind ≠ .eof) (h : Completed s t) :
    (s.expect kind).Leads (t.expect kind) := by
  intro token s' htoken
  obtain ⟨t', ht, h'⟩ := h.takes hkind (takes_of_gives_expect htoken)
  exact ⟨t', gives_expect ht, h'⟩

theorem binder (h : Completed s t) : s.binder.Leads t.binder :=
  (h.expect (by decide)).map _

section Lists

variable {α : Type} {read : Reader n α} {read' : Reader m α} {closing : Token.Kind}
  (hread : read.Leads read')

include hread

theorem commaSeparated (hclosing : closing ≠ .eof) (s t : Cursor) (hs : s.size < n)
    (ht : t.size < m) (h : Completed s t) :
    (commaSeparated read closing s hs).Leads (commaSeparated read' closing t ht) := by
  rw [Cursor.commaSeparated, Cursor.commaSeparated]
  refine (hread s t hs ht h).andThen fun first s₁ hs₁ t₁ ht₁ _ h₁ => ?_
  split
  · next comma s₂ hleft =>
    obtain ⟨t₂, hright, h₂⟩ := h₁.takes (by decide) (show s₁.Takes .comma comma s₂ from hleft)
    have hs₂ : s₂.size < s.size := Nat.lt_trans (size_of_eat? hleft) hs₁
    split
    · next comma' t₂' hright' =>
      cases hright.symm.trans hright'
      exact ((commaSeparated hclosing s₂ t₂ _ _ h₂).map _).after _ _
    · next hnone => cases hright.symm.trans hnone
  · next hleft =>
    have hright := h₁.eat?_eq_none (by decide) hleft
    split
    · next comma' t₂ hsome => cases hright.symm.trans hsome
    · exact ((h₁.expect hclosing).map _).after _ _
termination_by s.size

theorem list (hgrammatical : Grammatical closing) (horderly : ∀ s hs, (read s hs).Orderly) :
    Reader.Leads (list read closing) (list read' closing) := by
  intro s t hs ht h
  cases hleft : s.eat? closing with
  | some step =>
    obtain ⟨t', hright, h'⟩ :=
      h.takes hgrammatical.1 (show s.Takes closing step.1 step.2 from hleft)
    rw [list_of_some hs hleft, list_of_some ht hright]
    exact Outcome.leads_ok _ h' _ _
  | none =>
    rw [list_of_none hs hleft]
    intro values s' hvalues
    -- An item follows, and so the upcoming token is the same for both.
    have hend := (orderly_commaSeparated horderly hgrammatical s hs).not_atEnd hvalues
    obtain ⟨token, s₁, t₁, -, hnext, hnext', -⟩ := h.next hend
    rw [list_of_none ht (eat?_eq_none_of_next? hnext hnext' hleft)]
    exact commaSeparated hread hgrammatical.1 s t hs ht h values s' hvalues

end Lists

section Phrases

variable {read : Reader n (Expr Token)} {read' : Reader m (Expr Token)}
  (hread : read.Leads read')

include hread

theorem entry : Reader.Leads (entry read) (entry read') := by
  intro s t hs ht h
  refine (hread s t hs ht h).andThen fun key s₁ hs₁ t₁ ht₁ _ h₁ => ?_
  refine ((h₁.expect (by decide)).after hs₁ ht₁).andThen fun colon s₂ hs₂ t₂ ht₂ _ h₂ => ?_
  exact ((hread s₂ t₂ _ _ h₂).after hs₂ ht₂).map _

theorem binding (hs : s.size < n) (ht : t.size < m) (h : Completed s t) :
    (binding read s hs).Leads (binding read' t ht) := by
  refine (h.expect (by decide)).andThen fun token s₁ hs₁ t₁ ht₁ _ h₁ => ?_
  refine (h₁.binder.after hs₁ ht₁).andThen fun target s₂ hs₂ t₂ ht₂ _ h₂ => ?_
  refine ((h₂.expect (by decide)).after hs₂ ht₂).andThen fun sign s₃ hs₃ t₃ ht₃ _ h₃ => ?_
  exact ((hread s₃ t₃ _ _ h₃).after hs₃ ht₃).map _

theorem leaving (hs : s.size < n) (ht : t.size < m) (h : Completed s t) :
    (leaving read s hs).Leads (leaving read' t ht) := by
  refine (h.expect (by decide)).andThen fun token s₁ hs₁ t₁ ht₁ _ h₁ => ?_
  rw [h₁.endsReturn_eq]
  split
  · exact Outcome.leads_ok _ h₁ hs₁ ht₁
  · exact ((hread s₁ t₁ _ _ h₁).map _).after hs₁ ht₁

omit hread in
theorem terminated {x : Outcome s (Stmt Token)} {y : Outcome t (Stmt Token)} (h : x.Leads y) :
    x.terminated.Leads y.terminated :=
  h.andThen fun stmt _ _ _ _ _ h' => Outcome.leads_ok stmt h'.skip _ _

variable (horderly : ∀ s hs, (read s hs).Orderly)

include horderly

theorem statement : Reader.Leads (statement read) (statement read') := by
  intro s t hs ht h stmt s' hstmt
  have hend := (orderly_statement horderly s hs).not_atEnd hstmt
  obtain ⟨token, s₁, t₁, -, hnext, hnext', -⟩ := h.next hend
  suffices hleads : (Cursor.statement read s hs).Leads (Cursor.statement read' t ht) from
    hleads stmt s' hstmt
  simp only [Cursor.statement, peek?_of_next? hnext, peek?_of_next? hnext']
  split
  · exact terminated (binding hread hs ht h)
  · exact terminated (leaving hread hs ht h)
  · exact terminated ((hread s t hs ht h).map _)

variable (hreads : ∀ s hs, (read' s hs).Ends fun value t => Reads s (.item (.expr value)) t)

include hreads

/-- At the end of the input a block is closed by a brace that is left. -/
theorem statements {origin origin' : Cursor} (s t : Cursor) (ho : s.size < origin.size)
    (ho' : t.size < origin'.size) (hs : s.size < n) (ht : t.size < m) (h : Completed s t)
    (hdepth : 0 < t.depth) :
    (statements read origin s ho hs).Leads (statements read' origin' t ho' ht) := by
  cases hleft : s.eat? .rightBrace with
  | some step =>
    obtain ⟨t', hright, h'⟩ :=
      h.takes (by decide) (show s.Takes .rightBrace step.1 step.2 from hleft)
    rw [statements_of_closed ho hs hleft, statements_of_closed ho' ht hright]
    exact Outcome.leads_ok _ h' _ _
  | none =>
    cases h with
    | brace hend _ hright h' =>
      rw [statements_of_atEnd ho hs hleft hend, statements_of_closed ho' ht hright]
      exact Outcome.leads_ok _ h' _ _
    | done _ _ houtside => exact absurd hdepth (houtside ▸ Nat.lt_irrefl 0)
    | token hkind hnext hnext' h' =>
      have h := Completed.token hkind hnext hnext' h'
      have hend : ¬s.atEnd = true := by
        rw [atEnd_eq_of_next? hnext]
        exact fun heq => hkind (eq_of_beq heq)
      rw [statements_of_more ho hs hleft hend,
        statements_of_more ho' ht (eat?_eq_none_of_next? hnext hnext' hleft) (h.not_atEnd hend)]
      refine Outcome.Leads.after ?_ _ _
      refine (statement hread horderly s t hs ht h).andThen fun first s₁ hs₁ t₁ ht₁ hgives h₁ => ?_
      -- The statement closes no more braces than it opens.
      obtain ⟨ht₁', hok⟩ := hgives
      obtain ⟨u, hstmt, rfl⟩ := reads_statement hreads t ht first t₁ ht₁' hok
      have hdepth₁ : 0 < (u.skip .semicolon).depth := by
        rw [depth_skip_semicolon]
        exact Nat.lt_of_lt_of_le hdepth hstmt.depth_le
      exact (statements s₁ _ _ _ _ _ h₁ hdepth₁).map _
termination_by s.size

theorem block : Reader.Leads (block read) (block read') := by
  intro s t hs ht h
  refine (h.expect (by decide)).andThen fun token s₁ hs₁ t₁ ht₁ hgives h₁ => ?_
  have hdepth : 0 < t₁.depth := by
    rw [(takes_of_gives_expect hgives).depth_eq]
    exact Nat.succ_pos _
  exact (statements hread horderly hreads s₁ t₁ _ _ _ _ h₁ hdepth).map _

theorem branch (token : Token) : Reader.Leads (branch read token) (branch read' token) := by
  intro s t hs ht h
  refine (h.expect (by decide)).andThen fun opening s₁ hs₁ t₁ ht₁ _ h₁ => ?_
  refine ((hread s₁ t₁ _ _ h₁).after hs₁ ht₁).andThen fun condition s₂ hs₂ t₂ ht₂ _ h₂ => ?_
  refine ((h₂.expect (by decide)).after hs₂ ht₂).andThen fun closing s₃ hs₃ t₃ ht₃ _ h₃ => ?_
  refine ((block hread horderly hreads s₃ t₃ _ _ h₃).after hs₃ ht₃).andThen
    fun consequence s₄ hs₄ t₄ ht₄ _ h₄ => ?_
  split
  · next word s₅ hleft =>
    obtain ⟨t₅, hright, h₅⟩ := h₄.takes (by decide) (show s₄.Takes .elseWord word s₅ from hleft)
    split
    · next word' t₅' hright' =>
      cases hright.symm.trans hright'
      exact ((block hread horderly hreads s₅ t₅ _ _ h₅).after _ _).map _
    · next hnone => cases hright.symm.trans hnone
  · next hleft =>
    have hright := h₄.eat?_eq_none (by decide) hleft
    split
    · next word t₅ hsome => cases hright.symm.trans hsome
    · exact Outcome.leads_ok _ h₄ hs₄ ht₄

theorem function (token : Token) : Reader.Leads (function read token) (function read' token) := by
  intro s t hs ht h
  refine (h.expect (by decide)).andThen fun opening s₁ hs₁ t₁ ht₁ _ h₁ => ?_
  have hbinder : Reader.Leads (fun s (_ : s.size < n) => s.binder)
      fun t (_ : t.size < m) => t.binder := fun s t _ _ h => h.binder
  have hclosing : Grammatical .rightParen := by decide
  have hlist := list hbinder hclosing fun s _ => orderly_binder s
  refine ((hlist s₁ t₁ _ _ h₁).after hs₁ ht₁).andThen fun parameters s₂ hs₂ t₂ ht₂ _ h₂ => ?_
  exact ((block hread horderly hreads s₂ t₂ _ _ h₂).after hs₂ ht₂).map _

end Phrases

theorem operand {whole : Reader s.size (Expr Token)} {whole' : Reader t.size (Expr Token)}
    {inner : UnaryOp → Reader s.size (Expr Token)} {inner' : UnaryOp → Reader t.size (Expr Token)}
    (h : Completed s t) (hwhole : whole.Leads whole') (hinner : ∀ op, (inner op).Leads (inner' op))
    (horderly : ∀ s hs, (whole s hs).Orderly) (horderly' : ∀ op s hs, (inner op s hs).Orderly)
    (hreads : ∀ s hs, (whole' s hs).Ends fun value t => Reads s (.item (.expr value)) t) :
    (Cursor.operand s whole inner).Leads (Cursor.operand t whole' inner') := by
  intro value s' hvalue
  have hend := (orderly_operand s horderly horderly').not_atEnd hvalue
  obtain ⟨token, s₁, t₁, -, hnext, hnext', h₁⟩ := h.next hend
  suffices hleads : (Cursor.operand s whole inner).Leads (Cursor.operand t whole' inner') from
    hleads value s' hvalue
  obtain ⟨_ | ⟨first, rest⟩, depth⟩ := s
  · cases hnext
  obtain ⟨_ | ⟨first', rest'⟩, depth'⟩ := t
  · cases hnext'
  cases hnext
  cases hnext'
  obtain ⟨kind, literal, span⟩ := token
  dsimp only [Cursor.operand, next?]
  cases kind <;> dsimp only
  case int =>
    cases integer? literal with
    | none => exact Outcome.leads_fail _ _
    | some value => exact Outcome.leads_ok _ h₁ _ _
  case ident | string | trueWord | falseWord => exact Outcome.leads_ok _ h₁ _ _
  case bang | minus => exact ((hinner _ _ _ _ _ h₁).map _).after _ _
  case leftParen =>
    refine Outcome.Leads.after ?_ _ _
    refine (hwhole _ _ _ _ h₁).andThen fun inner s₂ hs₂ t₂ ht₂ _ h₂ => ?_
    exact ((h₂.expect (by decide)).map _).after _ _
  case ifWord => exact (branch hwhole horderly hreads _ _ _ _ _ h₁).after _ _
  case fnWord => exact (function hwhole horderly hreads _ _ _ _ _ h₁).after _ _
  case leftBracket => exact ((list hwhole (by decide) horderly _ _ _ _ h₁).map _).after _ _
  case leftBrace =>
    exact ((list (entry hwhole) (by decide) (orderly_entry horderly) _ _ _ _ h₁).map _).after _ _
  all_goals exact Outcome.leads_fail _ _

section Operators

variable {read : Nat → Reader n (Expr Token)} {read' : Nat → Reader m (Expr Token)}
  (hread : ∀ power, (read power).Leads (read' power))
  (horderly : ∀ power s hs, (read power s hs).Orderly)

include hread horderly

theorem suffixed (token : Token) (lhs : Expr Token) (suffix : Suffix) :
    Reader.Leads (suffixed read token lhs suffix) (suffixed read' token lhs suffix) := by
  intro s t hs ht h
  cases suffix with
  | binary op => exact (hread _ s t _ _ h).map _
  | call => exact (list (hread 0) (by decide) (horderly 0) s t _ _ h).map _
  | index =>
    refine (hread 0 s t _ _ h).andThen fun position s₁ hs₁ t₁ ht₁ _ h₁ => ?_
    exact ((h₁.expect (by decide)).map _).after hs₁ ht₁

theorem climb (least : Nat) (lhs : Expr Token) {origin origin' : Cursor} (s t : Cursor)
    (ho : s.size < origin.size) (ho' : t.size < origin'.size) (hs : s.size < n) (ht : t.size < m)
    (h : Completed s t) :
    (climb read least origin lhs s ho hs).Leads (climb read' least origin' lhs t ho' ht) := by
  rcases s.stopsAt_or_power_ge least with hstop | ⟨token, s₁, suffix, hnext, hkind, hpower⟩
  · rw [climb_of_stopsAt hstop, climb_of_stopsAt (h.stopsAt hstop)]
    exact Outcome.leads_ok _ h ho ho'
  · have hend : ¬s.atEnd = true := fun hend =>
      Nat.not_lt_of_le hpower (stopsAt_of_atEnd least hend token s₁ suffix hnext hkind)
    obtain ⟨token', s', t₁, -, hleft, hright, h₁⟩ := h.next hend
    cases hnext.symm.trans hleft
    have hs₁ : s₁.size < s.size := size_lt_of_next? hleft
    rw [climb_of_power_ge ho hs hs₁ hleft hkind hpower,
      climb_of_power_ge ho' ht (size_lt_of_next? hright) hright hkind hpower]
    refine Outcome.Leads.after ?_ _ _
    refine (suffixed hread horderly token lhs suffix s₁ t₁ _ _ h₁).andThen
      fun value s₂ hs₂ t₂ ht₂ _ h₂ => ?_
    exact climb least value s₂ t₂ _ _ _ _ h₂
termination_by s.size

end Operators

theorem expressionAbove (least : Nat) (s t : Cursor) (h : Completed s t) :
    (s.expressionAbove least).Leads (t.expressionAbove least) := by
  have ih : ∀ power, Reader.Leads (fun s₁ (_ : s₁.size < s.size) => s₁.expressionAbove power)
      fun t₁ (_ : t₁.size < t.size) => t₁.expressionAbove power :=
    fun power s₁ t₁ _ _ h₁ => expressionAbove power s₁ t₁ h₁
  have horderly : ∀ power (s₁ : Cursor) (_ : s₁.size < s.size),
      (s₁.expressionAbove power).Orderly := fun power s₁ _ => orderly_expressionAbove power s₁
  rw [Cursor.expressionAbove, Cursor.expressionAbove]
  refine (h.operand (ih 0) (fun op => ih op.power) (horderly 0) (fun op => horderly op.power)
    fun t₁ _ => reads_expressionAbove 0 t₁).andThen fun lhs s₁ hs₁ t₁ ht₁ _ h₁ => ?_
  exact climb ih horderly least lhs s₁ t₁ hs₁ ht₁ hs₁ ht₁ h₁
termination_by s.size

theorem topStatement (h : Completed s t) : s.topStatement.Leads t.topStatement :=
  statement (fun s₁ t₁ _ _ h₁ => expressionAbove 0 s₁ t₁ h₁)
    (fun s₁ _ => orderly_expressionAbove 0 s₁) s t _ _ h

/-- Behind the last token all braces are closed. -/
theorem depth_eq_zero (h : Completed s t) (hend : t.atEnd = true) : t.depth = 0 := by
  cases h with
  | token hkind _ ht _ =>
    rw [atEnd_eq_of_next? ht] at hend
    exact absurd (eq_of_beq hend) hkind
  | brace _ _ ht _ => exact absurd hend (ht.not_atEnd (by decide))
  | done _ _ hdepth => exact hdepth

/-- A program without errors stays the same. -/
theorem program (s t : Cursor) (h : Completed s t) (hdepth : t.depth = 0)
    (herrors : s.program.1.errors = []) : t.program.1 = s.program.1 := by
  by_cases hend : s.atEnd = true
  · cases h with
    | token hkind hs _ _ =>
      rw [atEnd_eq_of_next? hs] at hend
      exact absurd (eq_of_beq hend) hkind
    | brace _ hopen _ _ => exact absurd hdepth (Nat.ne_of_gt hopen)
    | done _ ht _ => rw [program_of_atEnd hend, program_of_atEnd ht]
  · cases hfirst : s.topStatement with
    | fail error s₁ within =>
      rw [program_of_fail hend hfirst] at herrors
      cases herrors
    | ok first s₁ shorter =>
      obtain ⟨t₁, ⟨ht₁, hfirst'⟩, h₁⟩ := h.topStatement first s₁ ⟨shorter, hfirst⟩
      obtain ⟨u, hstmt, rfl⟩ := reads_topStatement t first t₁ ht₁ hfirst'
      have hdepth₁ : (u.skip .semicolon).depth = 0 := by
        rw [depth_skip_semicolon]
        rcases (hstmt.closes (Nat.zero_le _)).depth with heq | hstop
        · exact heq.trans hdepth
        · rw [skip_of_atEnd hstop] at h₁
          exact h₁.depth_eq_zero hstop
      rw [program_of_ok hend hfirst] at herrors ⊢
      rw [program_of_ok (h.not_atEnd hend) hfirst', program s₁ _ h₁ hdepth₁ herrors]
termination_by s.size

end Cursor.Completed

end Scriptlet.Grammar
