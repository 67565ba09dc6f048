import Scriptlet.Proofs.Reading
import Scriptlet.Proofs.Stream

/-! # What readers take from the stream

A reader takes tokens from the front of the stream. All that it takes for a phrase belongs to the
grammar: the end of the input and illegal tokens are never among it. Where a phrase can not be read
on, the error is about the token at which reading stopped. Only the recovery from an error passes
over illegal tokens, and nothing passes over the end of the input.
-/

namespace Scriptlet.Grammar

/-- A kind of token that phrases are made of. -/
def Grammatical (kind : Token.Kind) : Prop :=
  kind ≠ .eof ∧ kind ≠ .illegal

instance : DecidablePred Grammatical := fun kind =>
  inferInstanceAs (Decidable (kind ≠ .eof ∧ kind ≠ .illegal))

namespace Cursor

/-- The tokens from one cursor up to another are all of such kinds. -/
def Crosses (P : Token.Kind → Prop) (s t : Cursor) : Prop :=
  ∃ taken, s.tokens = taken ++ t.tokens ∧ ∀ token ∈ taken, P token.kind

namespace Crosses

variable {P Q : Token.Kind → Prop} {s t u : Cursor} {token : Token}

theorem refl (s : Cursor) : s.Crosses P s :=
  ⟨[], rfl, nofun⟩

theorem trans (h : s.Crosses P t) (h' : t.Crosses P u) : s.Crosses P u := by
  obtain ⟨taken, htokens, htaken⟩ := h
  obtain ⟨more, htokens', hmore⟩ := h'
  refine ⟨taken ++ more, by rw [htokens, htokens', List.append_assoc], ?_⟩
  exact List.forall_mem_append.mpr ⟨htaken, hmore⟩

theorem imp (h : s.Crosses P t) (hPQ : ∀ kind, P kind → Q kind) : s.Crosses Q t := by
  obtain ⟨taken, htokens, htaken⟩ := h
  exact ⟨taken, htokens, fun token htoken => hPQ _ (htaken token htoken)⟩

theorem of_next? (h : s.next? = some (token, t)) (hP : P token.kind) : s.Crosses P t :=
  ⟨[token], (next?_eq_some_iff.mp h).1, List.forall_mem_singleton.mpr hP⟩

theorem cons {first : Token} (hP : P first.kind) (rest : List Token) (depth : Nat) :
    Crosses P ⟨first :: rest, depth⟩ ⟨rest, first.kind.depthAfter depth⟩ :=
  of_next? rfl hP

theorem of_takes {kind : Token.Kind} (h : s.Takes kind token t) (hP : P kind) : s.Crosses P t :=
  of_next? h.next?_eq (h.kind_eq ▸ hP)

theorem skip {kind : Token.Kind} (hP : P kind) (s : Cursor) : s.Crosses P (s.skip kind) := by
  rcases s.skip_cases kind with hsame | ⟨token, htakes⟩
  · rw [hsame]
    exact refl s
  · exact of_takes htakes hP

theorem exists_cons (h : s.Crosses P t) (hlt : t.size < s.size) :
    ∃ first taken, s.tokens = first :: taken ++ t.tokens ∧
      ∀ token ∈ first :: taken, P token.kind := by
  obtain ⟨taken, htokens, htaken⟩ := h
  cases taken with
  | nil => exact absurd (congrArg List.length htokens) (Nat.ne_of_gt hlt)
  | cons first taken => exact ⟨first, taken, htokens, htaken⟩

end Crosses

/-- The end of the input is still ahead. -/
def Bounded (s : Cursor) : Prop :=
  ∃ token ∈ s.tokens, token.kind = .eof

theorem Bounded.of_crosses {s t : Cursor} (hs : s.Bounded) (h : s.Crosses (· ≠ .eof) t) :
    t.Bounded := by
  obtain ⟨token, htoken, hkind⟩ := hs
  obtain ⟨taken, htokens, htaken⟩ := h
  rw [htokens] at htoken
  rcases List.mem_append.mp htoken with htoken | htoken
  · exact absurd hkind (htaken token htoken)
  · exact ⟨token, htoken, hkind⟩

theorem Bounded.exists_peek? {s : Cursor} (h : s.Bounded) :
    ∃ token ∈ s.tokens, s.peek? = some token := by
  obtain ⟨_ | ⟨token, rest⟩, depth⟩ := s
  · obtain ⟨_, htoken, _⟩ := h
    cases htoken
  · exact ⟨token, List.mem_cons_self, rfl⟩

theorem bounded_ofSource (source : String) : (ofSource source).Bounded := by
  obtain ⟨before, last, hstream, hlast, -⟩ := Token.streamFrom_eq_append_eof source.toList 0
  refine ⟨last, ?_, hlast⟩
  rw [show (ofSource source).tokens = _ from hstream]
  exact List.mem_append_right _ (List.mem_singleton_self last)

/-- At the end there is one token left. -/
theorem Crosses.tokens_eq_of_atEnd {source : String} {s : Cursor}
    (h : (ofSource source).Crosses (· ≠ .eof) s) (hend : s.atEnd = true) :
    ∃ last, s.tokens = [last] ∧ last.kind = .eof := by
  obtain ⟨first, -, hpeek⟩ := ((bounded_ofSource source).of_crosses h).exists_peek?
  obtain ⟨taken, htokens, -⟩ := h
  obtain ⟨_ | ⟨last, rest⟩, depth⟩ := s
  · cases hpeek
  · have hkind : last.kind = .eof := by simpa [atEnd, kind?, peek?] using hend
    exact ⟨last, by rw [Token.eq_nil_of_stream_eq htokens hkind], hkind⟩

/-- What an error that was met at a cursor tells, and the cursor that it leaves. -/
inductive Stuck (s : Cursor) : Error → Cursor → Prop
  | unexpected {expected} : s.kind? ≠ some expected → Stuck s (s.unexpected expected) s
  | noExpression {token} : s.peek? = some token → token.kind ∉ starters →
      Stuck s ⟨.noExpression token.kind, token.span⟩ s
  | integerTooLarge {token t} : s.Takes .int token t → integer? token.literal = none →
      Stuck s ⟨.integerTooLarge token.literal, token.span⟩ t

end Cursor

open Cursor

namespace Outcome

variable {s t : Cursor} {α β : Type}

/-- What is read, or passed on the way to an error, belongs to the grammar. -/
def Orderly : Outcome s α → Prop
  | ok _ rest _ => s.Crosses Grammatical rest
  | fail error rest _ => ∃ r : Cursor, s.Crosses Grammatical r ∧ r.Stuck error rest

theorem Orderly.andThen {x : Outcome s α} {f : α → (t : Cursor) → t.size < s.size → Outcome s β}
    (hx : x.Orderly) (hf : ∀ value t ht, s.Crosses Grammatical t → (f value t ht).Orderly) :
    (x.andThen f).Orderly := by
  cases x with
  | ok value rest shorter => exact hf value rest shorter hx
  | fail error rest within => exact hx

theorem Orderly.after {x : Outcome t α} (hx : x.Orderly) (hcross : s.Crosses Grammatical t)
    (h : t.size < s.size) : (x.after h).Orderly := by
  cases x with
  | ok value rest shorter => exact hcross.trans hx
  | fail error rest within =>
    obtain ⟨r, hr, hstuck⟩ := hx
    exact ⟨r, hcross.trans hr, hstuck⟩

theorem Orderly.map {x : Outcome s α} (hx : x.Orderly) (f : α → β) : (x.map f).Orderly :=
  hx.andThen fun _ _ _ hcross => hcross

theorem Orderly.terminated {x : Outcome s α} (hx : x.Orderly) : x.terminated.Orderly :=
  hx.andThen fun _ _ _ hcross => hcross.trans (.skip (by decide) _)

theorem orderly_unexpected {kind : Token.Kind} (h : s.kind? ≠ some kind)
    (within : s = s ∨ s.size < s.size) :
    (fail (s.unexpected kind) s within : Outcome s α).Orderly :=
  ⟨s, .refl s, .unexpected h⟩

end Outcome

variable {n : Nat} {α : Type}

theorem kind?_ne_of_eat?_none {s : Cursor} {kind : Token.Kind} (h : s.eat? kind = none) :
    s.kind? ≠ some kind := by
  obtain ⟨_ | ⟨token, rest⟩, depth⟩ := s
  · exact nofun
  · intro heq
    have hkind : token.kind = kind := Option.some.inj heq
    simp [eat?, next?, hkind] at h

theorem orderly_expect {kind : Token.Kind} (hkind : Grammatical kind) (s : Cursor) :
    (s.expect kind).Orderly := by
  rw [expect]
  split
  · next token t h => exact .of_takes h hkind
  · next h => exact Outcome.orderly_unexpected (kind?_ne_of_eat?_none h) _

theorem orderly_binder (s : Cursor) : s.binder.Orderly :=
  (orderly_expect (by decide) s).map _

section Lists

variable {read : Reader n α} {closing : Token.Kind}
  (hread : ∀ s hs, (read s hs).Orderly) (hclosing : Grammatical closing)

include hread hclosing

theorem orderly_commaSeparated (s : Cursor) (hs : s.size < n) :
    (commaSeparated read closing s hs).Orderly := by
  rw [commaSeparated]
  refine (hread s hs).andThen fun first t ht hfirst => ?_
  split
  · next comma u hcomma =>
    have hu : u.size < s.size := Nat.lt_trans (size_of_eat? hcomma) ht
    have ih := orderly_commaSeparated u (Nat.lt_trans hu hs)
    exact (ih.map _).after (hfirst.trans (.of_takes hcomma (by decide))) hu
  · exact ((orderly_expect hclosing t).map _).after hfirst ht
termination_by s.size

theorem orderly_list (s : Cursor) (hs : s.size < n) : (list read closing s hs).Orderly := by
  rw [list]
  split
  · next token t h => exact .of_takes h hclosing
  · exact orderly_commaSeparated hread hclosing s hs

end Lists

section Phrases

variable {read : Reader n (Expr Token)} (hread : ∀ s hs, (read s hs).Orderly)

include hread

theorem orderly_entry (s : Cursor) (hs : s.size < n) : (entry read s hs).Orderly := by
  refine (hread s hs).andThen fun key t ht hkey => ?_
  refine ((orderly_expect (by decide) t).after hkey ht).andThen fun colon u hu hcolon => ?_
  exact ((hread u _).after hcolon hu).map _

theorem orderly_binding (s : Cursor) (hs : s.size < n) : (binding read s hs).Orderly := by
  refine (orderly_expect (by decide) s).andThen fun token t ht htoken => ?_
  refine ((orderly_binder t).after htoken ht).andThen fun target u hu htarget => ?_
  refine ((orderly_expect (by decide) u).after htarget hu).andThen fun sign v hv hsign => ?_
  exact ((hread v _).after hsign hv).map _

theorem orderly_leaving (s : Cursor) (hs : s.size < n) : (leaving read s hs).Orderly := by
  refine (orderly_expect (by decide) s).andThen fun token t ht htoken => ?_
  split
  · exact htoken
  · exact ((hread t _).map _).after htoken ht

theorem orderly_statement (s : Cursor) (hs : s.size < n) : (statement read s hs).Orderly := by
  rw [statement]
  split
  · next hpeek =>
    have hkind : s.kind? ≠ some .eof := by simp [kind?, hpeek]
    exact Outcome.orderly_unexpected hkind _
  · split
    · exact (orderly_binding hread s hs).terminated
    · exact (orderly_leaving hread s hs).terminated
    · exact ((hread s hs).map _).terminated

theorem orderly_statements (origin s : Cursor) (ho : s.size < origin.size) (hs : s.size < n)
    (hcross : origin.Crosses Grammatical s) : (statements read origin s ho hs).Orderly := by
  rw [statements]
  split
  · next token t h => exact hcross.trans (.of_takes h (by decide))
  · split
    · exact hcross
    · refine ((orderly_statement hread s hs).andThen fun first t ht hfirst => ?_).after hcross ho
      exact (orderly_statements s t ht _ hfirst).map _
termination_by s.size

theorem orderly_block (s : Cursor) (hs : s.size < n) : (Cursor.block read s hs).Orderly := by
  refine (orderly_expect (by decide) s).andThen fun token t ht htoken => ?_
  exact (orderly_statements hread s t ht _ htoken).map _

theorem orderly_branch (token : Token) (s : Cursor) (hs : s.size < n) :
    (Cursor.branch read token s hs).Orderly := by
  refine (orderly_expect (by decide) s).andThen fun opening t ht hopening => ?_
  refine ((hread t _).after hopening ht).andThen fun condition u hu hcondition => ?_
  refine ((orderly_expect (by decide) u).after hcondition hu).andThen
    fun closing v hv hclosing => ?_
  refine ((orderly_block hread v _).after hclosing hv).andThen fun consequence w hw hblock => ?_
  split
  · next word x hword =>
    have helse := hblock.trans (.of_takes hword (by decide))
    exact ((orderly_block hread x _).after helse _).map _
  · exact hblock

theorem orderly_function (token : Token) (s : Cursor) (hs : s.size < n) :
    (Cursor.function read token s hs).Orderly := by
  refine (orderly_expect (by decide) s).andThen fun opening t ht hopening => ?_
  have hclosing : Grammatical .rightParen := by decide
  have hlist := orderly_list (fun s _ => orderly_binder s) hclosing t (Nat.lt_trans ht hs)
  refine (hlist.after hopening ht).andThen fun parameters u hu hparameters => ?_
  exact ((orderly_block hread u _).after hparameters hu).map _

end Phrases

theorem orderly_operand (s : Cursor) {whole : Reader s.size (Expr Token)}
    {inner : UnaryOp → Reader s.size (Expr Token)} (hwhole : ∀ t ht, (whole t ht).Orderly)
    (hinner : ∀ op t ht, (inner op t ht).Orderly) : (operand s whole inner).Orderly := by
  rw [operand]
  split
  · next hnext =>
    have hkind : s.kind? ≠ some .eof := by
      obtain ⟨_ | _, _⟩ := s
      · exact nofun
      · cases hnext
    exact Outcome.orderly_unexpected hkind _
  · next token t hnext =>
    have hcross : ∀ kind, token.kind = kind → Grammatical kind → s.Crosses Grammatical t :=
      fun kind hkind h => .of_next? hnext (hkind ▸ h)
    dsimp only
    split
    · next hkind =>
      split
      · exact hcross .int hkind (by decide)
      · next hvalue =>
        exact ⟨s, .refl s, .integerTooLarge (eat?_eq_some_iff.mpr ⟨hnext, hkind⟩) hvalue⟩
    · next hkind => exact hcross .ident hkind (by decide)
    · next hkind => exact hcross .string hkind (by decide)
    · next hkind => exact hcross .trueWord hkind (by decide)
    · next hkind => exact hcross .falseWord hkind (by decide)
    · next hkind => exact ((hinner .not t _).map _).after (hcross .bang hkind (by decide)) _
    · next hkind => exact ((hinner .negate t _).map _).after (hcross .minus hkind (by decide)) _
    · next hkind =>
      refine Outcome.Orderly.after ?_ (hcross .leftParen hkind (by decide)) _
      refine (hwhole t _).andThen fun value u hu hvalue => ?_
      exact ((orderly_expect (by decide) u).map _).after hvalue hu
    · next hkind =>
      exact (orderly_branch hwhole token t _).after (hcross .ifWord hkind (by decide)) _
    · next hkind =>
      exact (orderly_function hwhole token t _).after (hcross .fnWord hkind (by decide)) _
    · next hkind =>
      have hclosing : Grammatical .rightBracket := by decide
      have hlist := orderly_list hwhole hclosing t (size_lt_of_next? hnext)
      exact (hlist.map _).after (hcross .leftBracket hkind (by decide)) _
    · next hkind =>
      have hclosing : Grammatical .rightBrace := by decide
      have hlist := orderly_list (orderly_entry hwhole) hclosing t (size_lt_of_next? hnext)
      exact (hlist.map _).after (hcross .leftBrace hkind (by decide)) _
    · refine ⟨s, .refl s, .noExpression (peek?_of_next? hnext) ?_⟩
      simp only [starters, List.mem_cons, List.not_mem_nil, or_false, not_or]
      exact ⟨‹_›, ‹_›, ‹_›, ‹_›, ‹_›, ‹_›, ‹_›, ‹_›, ‹_›, ‹_›, ‹_›, ‹_›⟩

theorem grammatical_of_suffix {kind : Token.Kind} {suffix : Suffix}
    (h : Suffix.ofKind? kind = some suffix) : Grammatical kind := by
  cases kind <;> first | decide | cases h

section Operators

variable {read : Nat → Reader n (Expr Token)} (hread : ∀ power s hs, (read power s hs).Orderly)

include hread

theorem orderly_suffixed (token : Token) (lhs : Expr Token) (suffix : Suffix) (s : Cursor)
    (hs : s.size < n) : (suffixed read token lhs suffix s hs).Orderly := by
  cases suffix with
  | binary op => exact (hread op.rightPower s hs).map _
  | call => exact (orderly_list (hread 0) (by decide) s hs).map _
  | index =>
    refine (hread 0 s hs).andThen fun position t ht hposition => ?_
    exact ((orderly_expect (by decide) t).map _).after hposition ht

theorem orderly_climb (least : Nat) (origin : Cursor) (lhs : Expr Token) (s : Cursor)
    (ho : s.size < origin.size) (hs : s.size < n) (hcross : origin.Crosses Grammatical s) :
    (climb read least origin lhs s ho hs).Orderly := by
  rw [climb]
  split
  · exact hcross
  · next token t hnext =>
    have ht : t.size < s.size := size_lt_of_next? hnext
    dsimp only
    split
    · exact hcross
    · next suffix hkind =>
      split
      · exact hcross
      · have hsuffix := hcross.trans (.of_next? hnext (grammatical_of_suffix hkind))
        refine Outcome.Orderly.after ?_ hsuffix _
        refine (orderly_suffixed hread token lhs suffix t _).andThen fun value u hu hvalue => ?_
        exact orderly_climb least t value u hu _ hvalue
termination_by s.size

end Operators

theorem orderly_expressionAbove (least : Nat) (s : Cursor) : (s.expressionAbove least).Orderly := by
  have ih : ∀ power (t : Cursor), t.size < s.size → (t.expressionAbove power).Orderly :=
    fun power t _ => orderly_expressionAbove power t
  rw [expressionAbove]
  refine (orderly_operand s (fun t ht => ih 0 t ht) fun op t ht => ih op.power t ht).andThen
    fun lhs t ht hlhs => ?_
  exact orderly_climb (fun power t ht => ih power t ht) least s lhs t ht ht hlhs
termination_by s.size

theorem orderly_topStatement (s : Cursor) : s.topStatement.Orderly :=
  orderly_statement (fun t _ => orderly_expressionAbove 0 t) s _

/-! ### Programs -/

/-- Recovery ends in front of the end of the input at the latest. -/
theorem crosses_recover (s : Cursor) : s.Crosses (· ≠ .eof) s.recover := by
  obtain ⟨tokens, depth⟩ := s
  induction tokens generalizing depth with
  | nil => exact .refl _
  | cons token rest ih =>
    have hstep (hne : token.kind ≠ .eof) :
        Crosses (· ≠ .eof) ⟨token :: rest, depth⟩ ⟨rest, token.kind.depthAfter depth⟩ :=
      .cons hne rest depth
    simp only [recover, resume]
    split
    · exact .refl _
    · next hne =>
      split
      · exact hstep hne
      · split
        · exact (hstep hne).trans (.skip (by decide) _)
        · exact (hstep hne).trans (ih _)

theorem atEnd_program (s : Cursor) : s.program.2.atEnd = true := by
  by_cases hend : s.atEnd = true
  · rw [program_of_atEnd hend]
    exact hend
  · cases hfirst : s.topStatement with
    | ok first t shorter =>
      rw [program_of_ok hend hfirst]
      exact atEnd_program t
    | fail error t within =>
      have := size_recover_lt hend within
      rw [program_of_fail hend hfirst]
      exact atEnd_program t.recover
termination_by s.size

theorem Cursor.Stuck.crosses {s t : Cursor} {error : Error} (h : s.Stuck error t) :
    s.Crosses Grammatical t := by
  cases h with
  | unexpected | noExpression => exact .refl s
  | integerTooLarge htakes => exact .of_takes htakes (by decide)

theorem ne_eof_of_grammatical (kind : Token.Kind) (h : Grammatical kind) : kind ≠ .eof :=
  h.1

/-- Reading a program passes over everything but the end of the input, and every error is about a
token on the way. -/
theorem crosses_program (s : Cursor) :
    s.Crosses (· ≠ .eof) s.program.2 ∧
      ∀ error ∈ s.program.1.errors, ∃ r t : Cursor, s.Crosses (· ≠ .eof) r ∧ r.Stuck error t := by
  by_cases hend : s.atEnd = true
  · rw [program_of_atEnd hend]
    exact ⟨.refl s, List.forall_mem_nil _⟩
  · have horderly := orderly_topStatement s
    cases hfirst : s.topStatement with
    | ok first t shorter =>
      rw [hfirst] at horderly
      have hcross : s.Crosses (· ≠ .eof) t := Crosses.imp horderly ne_eof_of_grammatical
      obtain ⟨hrest, herrors⟩ := crosses_program t
      rw [program_of_ok hend hfirst]
      refine ⟨hcross.trans hrest, fun error herror => ?_⟩
      obtain ⟨r, u, hr, hstuck⟩ := herrors error herror
      exact ⟨r, u, hcross.trans hr, hstuck⟩
    | fail error t within =>
      have := size_recover_lt hend within
      rw [hfirst] at horderly
      obtain ⟨r, hr, hstuck⟩ := horderly
      have hcross : s.Crosses (· ≠ .eof) t.recover :=
        ((hr.trans hstuck.crosses).imp ne_eof_of_grammatical).trans (crosses_recover t)
      obtain ⟨hrest, herrors⟩ := crosses_program t.recover
      rw [program_of_fail hend hfirst]
      refine ⟨hcross.trans hrest, List.forall_mem_cons.mpr ⟨?_, fun other hother => ?_⟩⟩
      · exact ⟨r, t, hr.imp ne_eof_of_grammatical, hstuck⟩
      · obtain ⟨q, u, hq, hstuck⟩ := herrors other hother
        exact ⟨q, u, hcross.trans hq, hstuck⟩
termination_by s.size

/-- Without errors nothing is passed over but what belongs to the grammar. -/
theorem crosses_program_of_errors {s : Cursor} (h : s.program.1.errors = []) :
    s.Crosses Grammatical s.program.2 := by
  by_cases hend : s.atEnd = true
  · rw [program_of_atEnd hend]
    exact .refl s
  · have horderly := orderly_topStatement s
    cases hfirst : s.topStatement with
    | ok first t shorter =>
      rw [hfirst] at horderly
      rw [program_of_ok hend hfirst] at h ⊢
      exact Crosses.trans horderly (crosses_program_of_errors h)
    | fail error t within =>
      rw [program_of_fail hend hfirst] at h
      cases h
termination_by s.size

end Scriptlet.Grammar
