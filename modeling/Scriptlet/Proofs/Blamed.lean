import Scriptlet.Proofs.Guarded
import Scriptlet.Proofs.Numbered
import Scriptlet.Proofs.Rounds

/-! # The tokens that errors are about

Every error is about a token of the source that is not what belongs in its place. Recovery moves
past that token, whether it was taken or not when the error was met, so the errors of a program
stand in the order of the source and no two are about one token. An integer token that does not fit
is the subject of an error, and one that stands in a tree is the label of its value.
-/

namespace Scriptlet.Grammar

open Cursor

/-- The number that decimal digits denote. -/
def decimal (digits : String) : Nat :=
  Nat.ofDigitChars 10 digits.toList 0

theorem integer?_eq_none_iff {digits : String} :
    integer? digits = none ↔ 9223372036854775807 < decimal digits := by
  have hmax : Int64.maxValue.toNatClampNeg = 9223372036854775807 := by decide
  simp only [integer?, decimal, hmax]
  split
  · next hle => simpa using hle
  · next hgt => simpa using hgt

theorem toInt_eq_of_integer? {digits : String} {value : Int64} (h : integer? digits = some value) :
    decimal digits ≤ 9223372036854775807 ∧ value.toInt = decimal digits := by
  have hle : decimal digits ≤ 9223372036854775807 := by
    refine Nat.le_of_not_lt fun hlt => ?_
    rw [integer?_eq_none_iff.mpr hlt] at h
    cases h
  refine ⟨hle, ?_⟩
  have hvalue : Int64.ofNat (decimal digits) = value := by
    simp only [integer?] at h
    split at h
    · exact Option.some.inj h
    · cases h
  rw [← hvalue, Int64.toInt_ofNat_of_lt (Nat.lt_succ_of_le hle)]

/-- What a problem tells of the token that it is about. -/
def Problem.Tells (token : Token) : Problem → Prop
  | unexpected expected actual => actual = some token.kind ∧ expected ≠ token.kind
  | noExpression kind => kind = token.kind ∧ kind ∉ starters
  | integerTooLarge digits =>
    token.kind = .int ∧ digits = token.literal ∧ 9223372036854775807 < decimal digits

theorem Error.About.tells {token : Token} {error : Error} (h : error.About token) :
    error.span = token.span ∧ error.problem.Tells token := by
  cases h with
  | unexpected hne => exact ⟨rfl, rfl, hne.symm⟩
  | noExpression hkind => exact ⟨rfl, rfl, hkind⟩
  | integerTooLarge hkind hvalue => exact ⟨rfl, hkind, rfl, integer?_eq_none_iff.mp hvalue⟩

namespace Cursor

variable {s t u : Cursor} {count : Nat} {program : Program Token} {error : Error}

theorem Crosses.sublist_tail {P : Token.Kind → Prop} {token : Token} {after : List Token}
    (h : s.Crosses P t) (hlt : t.size < s.size) (htokens : s.tokens = token :: after) :
    t.tokens.Sublist after := by
  obtain ⟨first, taken, htaken, -⟩ := h.exists_cons hlt
  rw [htokens, List.cons_append] at htaken
  rw [(List.cons.inj htaken).2]
  exact List.sublist_append_right taken t.tokens

theorem Crosses.atEnd (h : s.Crosses (· ≠ .eof) t) (hend : s.atEnd = true) : t.atEnd = true := by
  obtain ⟨taken, htaken, hne⟩ := h
  cases taken with
  | nil =>
    have hpeek : t.peek? = s.peek? := congrArg List.head? htaken.symm
    rwa [Cursor.atEnd, kind?, hpeek]
  | cons first taken =>
    have hkind : first.kind = .eof := by simpa [Cursor.atEnd, kind?, peek?, htaken] using hend
    exact absurd hkind (hne first List.mem_cons_self)

theorem Stuck.within (h : s.Stuck error t) : t = s ∨ t.size < s.size := by
  cases h with
  | unexpected _ | noExpression _ _ => exact Or.inl rfl
  | integerTooLarge htakes _ => exact Or.inr (size_of_eat? htakes)

/-- Recovery moves past the token that the error is about, unless that is the end of the input. -/
theorem Stuck.exists_blamed (hs : s.Bounded) (h : s.Stuck error t) :
    ∃ token after, s.tokens = token :: after ∧ error.About token ∧
      (t.recover.tokens.Sublist after ∨ t.recover.atEnd = true) := by
  obtain ⟨token, -, hpeek⟩ := hs.exists_peek?
  obtain ⟨after, htokens⟩ : ∃ after, s.tokens = token :: after := List.head?_eq_some_iff.mp hpeek
  refine ⟨token, after, htokens, h.about_of_peek? hpeek, ?_⟩
  have hcross := (h.crosses.imp ne_eof_of_grammatical).trans (crosses_recover t)
  by_cases hend : s.atEnd = true
  · exact Or.inr (hcross.atEnd hend)
  · exact Or.inl (hcross.sublist_tail (size_recover_lt hend h.within) htokens)

theorem Rounds.eq_of_atEnd (h : Rounds count s program t) (hend : s.atEnd = true) :
    program = ⟨[], []⟩ := by
  cases h with
  | done _ => rfl
  | next hround _ => exact absurd hend (exists_round_iff.mp ⟨_, _, hround⟩)

/-- The errors of all rounds are about tokens in the order of the source, one token each. -/
theorem Rounds.exists_blamed (h : Rounds count s program t) (hs : s.Bounded) :
    ∃ blamed, blamed.Sublist s.tokens ∧ List.Forall₂ Error.About blamed program.errors := by
  induction h with
  | done _ => exact ⟨[], List.nil_sublist _, .nil⟩
  | @next _ s t _ gained others hround hrounds ih =>
    have hcross := hround.crosses
    obtain ⟨blamed, hblamed, habout⟩ := ih (hs.of_crosses hcross)
    obtain ⟨taken, htokens, -⟩ := hcross
    cases hround with
    | statement _ _ =>
      have hbehind : t.tokens.Sublist s.tokens := htokens ▸ List.sublist_append_right taken t.tokens
      exact ⟨blamed, hblamed.trans hbehind, habout⟩
    | @recovery error r _ hend hfail =>
      have horderly := orderly_topStatement s
      rw [hfail] at horderly
      obtain ⟨q, hq, hstuck⟩ := horderly
      have hbounded := hs.of_crosses (hq.imp ne_eof_of_grammatical)
      obtain ⟨token, after, hafter, herror, hrest⟩ := hstuck.exists_blamed hbounded
      obtain ⟨passed, hpassed, -⟩ := hq
      rw [hpassed, hafter]
      rcases hrest with hrest | hstop
      · refine ⟨token :: blamed, ?_, .cons herror habout⟩
        exact ((hblamed.trans hrest).cons_cons token).trans (List.sublist_append_right passed _)
      · -- Behind an error about the end of the input there is none.
        rw [hrounds.eq_of_atEnd hstop]
        refine ⟨[token], ?_, .cons herror .nil⟩
        exact ((List.nil_sublist after).cons_cons token).trans (List.sublist_append_right passed _)

/-- The statements of all rounds were read from tokens in front of the first. -/
theorem Rounds.exists_reads (h : Rounds count s program t) :
    ∀ stmt ∈ program.statements, ∃ q r, Reads q (.stmt stmt) r ∧ q.All (· ∈ s.tokens) := by
  induction h with
  | done _ => exact List.forall_mem_nil _
  | @next _ s t _ gained others hround hrounds ih =>
    obtain ⟨taken, htokens, -⟩ := hround.crosses
    have hothers : ∀ stmt ∈ others.statements,
        ∃ q r, Reads q (.stmt stmt) r ∧ q.All (· ∈ s.tokens) := by
      intro stmt hstmt
      obtain ⟨q, r, hreads, hall⟩ := ih stmt hstmt
      refine ⟨q, r, hreads, fun token htoken => ?_⟩
      rw [htokens]
      exact List.mem_append_right taken (hall token htoken)
    cases hround with
    | statement _ hfirst =>
      obtain ⟨r, hreads, -⟩ := reads_topStatement s _ _ _ hfirst
      exact List.forall_mem_cons.mpr ⟨⟨s, r, hreads, fun _ htoken => htoken⟩, hothers⟩
    | recovery _ _ => exact hothers

end Cursor

theorem span_eq_of_about {blamed : List Token} {errors : List Error}
    (h : List.Forall₂ Error.About blamed errors) : errors.map (·.span) = blamed.map (·.span) := by
  induction h with
  | nil => rfl
  | cons herror _ ih => rw [List.map_cons, List.map_cons, ih, herror.tells.1]

theorem exists_about_of_mem {blamed : List Token} {errors : List Error}
    (h : List.Forall₂ Error.About blamed errors) :
    ∀ error ∈ errors, ∃ token ∈ blamed, error.About token := by
  induction h with
  | nil => exact List.forall_mem_nil _
  | @cons token error _ _ herror _ ih =>
    refine List.forall_mem_cons.mpr ⟨⟨token, List.mem_cons_self, herror⟩, fun other hother => ?_⟩
    obtain ⟨blamed, hblamed, habout⟩ := ih other hother
    exact ⟨blamed, List.mem_cons_of_mem _ hblamed, habout⟩

/-! ### Statements that were read one by one -/

section Statements

variable {stmts : List (Stmt Token)} {P : Token → Prop}
  (hstmts : ∀ stmt ∈ stmts, ∃ s t, Reads s (.stmt stmt) t ∧ s.All P)

include hstmts

theorem signed_of_reads : ∀ node ∈ nodesOfStatements stmts, node.Signed P := by
  induction stmts with
  | nil => exact List.forall_mem_nil _
  | cons first rest ih =>
    obtain ⟨⟨s, t, hreads, hall⟩, hrest⟩ := List.forall_mem_cons.mp hstmts
    exact List.forall_mem_append.mpr ⟨hreads.signed hall, ih hrest⟩

theorem numbered_of_reads : Numbered (keptStatements stmts) (nodesOfStatements stmts) := by
  induction stmts with
  | nil => exact .nil
  | cons first rest ih =>
    obtain ⟨⟨s, t, hreads, -⟩, hrest⟩ := List.forall_mem_cons.mp hstmts
    exact hreads.numbered.append (ih hrest)

end Statements

/-- How precise the errors of a source are. -/
structure Precise (source : String) : Prop where
  ordered : (Program.ofSource source).errors.Pairwise fun first second =>
    first.span.start < second.span.start
  about : ∀ error ∈ (Program.ofSource source).errors, ∃ token ∈ Token.stream source,
    error.span = token.span ∧ error.problem.Tells token
  /-- An integer token that is stored anywhere in the trees is the label of an integer. -/
  stored : ∀ token, Stored (Program.ofSource source).statements token → token.kind = .int →
    ∃ value, .expr (.int token value) ∈ nodesOfStatements (Program.ofSource source).statements
  value : ∀ (token : Token) (value : Int64),
    .expr (.int token value) ∈ nodesOfStatements (Program.ofSource source).statements →
      token ∈ Token.stream source ∧ token.kind = .int ∧
        decimal token.literal ≤ 9223372036854775807 ∧ value.toInt = decimal token.literal

/-- The errors of a source are about tokens that follow one another in it. Each says what its token
is and why that is wrong. An integer token of a tree fits, and labels its value. -/
theorem precise_ofSource (source : String) (hsize : Text.byteLength source.toList < 2 ^ 32) :
    Precise source := by
  obtain ⟨count, hrounds⟩ := exists_rounds (ofSource source)
  obtain ⟨blamed, hblamed, habout⟩ := hrounds.exists_blamed (bounded_ofSource source)
  have hreads := hrounds.exists_reads
  have hascending := (Token.streamFrom_ascending source.toList 0 (by omega)).2
  refine { ordered := ?_, about := ?_, stored := ?_, value := ?_ }
  · have hspans : (blamed.map (·.span)).Pairwise fun first second => first.start < second.start :=
      List.pairwise_map.mpr ((hascending.sublist hblamed).imp fun hbefore => hbefore.1)
    rw [← span_eq_of_about habout, List.pairwise_map] at hspans
    exact hspans
  · intro error herror
    obtain ⟨token, htoken, h⟩ := exists_about_of_mem habout error herror
    exact ⟨token, hblamed.subset htoken, h.tells⟩
  · intro token hstored hkind
    exact numbered_of_reads hreads token hkind hstored
  · intro token value hnode
    obtain ⟨htoken, hkind, hvalue⟩ := signed_of_reads hreads _ hnode
    exact ⟨htoken, hkind, toInt_eq_of_integer? hvalue⟩

/-- A number for a name, a number that is too large by one and one that is not, a sign with nothing
in front of it, and an argument list that the input ends in. -/
theorem precise_ofSource_digits :
    let source := "let 5 = 3; 9223372036854775808 + 1; * 2; 9223372036854775807 + 1; f(007); g(1"
    Text.byteLength source.toList < 2 ^ 32 ∧ (Program.ofSource source).errors.length = 4 ∧
      (Program.ofSource source).statements.length = 2 ∧ Precise source := by
  intro source
  have hsize : Text.byteLength source.toList < 2 ^ 32 := by decide +kernel
  have herrors : (Program.ofSource source).errors.length = 4 := by decide +kernel
  have hstatements : (Program.ofSource source).statements.length = 2 := by decide +kernel
  exact ⟨hsize, herrors, hstatements, precise_ofSource source hsize⟩

end Scriptlet.Grammar
