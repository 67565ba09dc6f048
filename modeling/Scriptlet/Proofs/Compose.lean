import Scriptlet.Proofs.SideBySide

/-! # Programs one behind the other

A text that ends in a semicolon outside all braces is read as if nothing followed it, and what
follows is read as if it stood alone, whatever errors there are in front of the semicolon.
-/

namespace Scriptlet.Grammar

open Cursor Token

def braceDepth (depth : Nat) (tokens : List Token) : Nat :=
  tokens.foldl (fun depth token => token.kind.depthAfter depth) depth

/-- Two cursors in front of the same tokens up to a semicolon outside all braces, behind which the
tokens may differ. -/
def SharesUpTo (after after' : List Token) (s t : Cursor) : Prop :=
  ∃ before semicolon, s.tokens = before ++ semicolon :: after ∧
    t.tokens = before ++ semicolon :: after' ∧ semicolon.kind = .semicolon ∧
      (∀ token ∈ before, token.kind ≠ .eof) ∧ t.depth = s.depth ∧ braceDepth s.depth before = 0

theorem SharesUpTo.not_atEnd {after after' : List Token} {s t : Cursor}
    (h : SharesUpTo after after' s t) : ¬s.atEnd = true := by
  obtain ⟨before, semicolon, hs, -, hkind, hbefore, -⟩ := h
  cases before with
  | nil => simp [atEnd, kind?, peek?, hs, hkind]
  | cons first before => simp [atEnd, kind?, peek?, hs, hbefore first List.mem_cons_self]

theorem twin_sharesUpTo (after after' : List Token) :
    Twin id (SharesUpTo after after')
      fun s t => SharesUpTo after after' s t ∨ s = ⟨after, 0⟩ ∧ t = ⟨after', 0⟩ where
  next := by
    rintro ⟨_, depth⟩ ⟨_, _⟩ ⟨before, semicolon, rfl, rfl, hkind, hbefore, hsame, hdepth⟩
    cases hsame
    cases before with
    | nil =>
      refine ⟨semicolon, _, _, rfl, rfl, fun _ => Or.inr ?_, fun hstop => ?_⟩
      · rw [hkind]
        cases hdepth
        exact ⟨rfl, rfl⟩
      · exact absurd (hkind ▸ hstop) (by decide)
    | cons first before =>
      have h : SharesUpTo after after'
          ⟨before ++ semicolon :: after, first.kind.depthAfter depth⟩
          ⟨before ++ semicolon :: after', first.kind.depthAfter depth⟩ :=
        ⟨before, semicolon, rfl, rfl, hkind,
          fun token htoken => hbefore token (List.mem_cons_of_mem _ htoken), rfl, hdepth⟩
      exact ⟨first, _, _, rfl, rfl, fun _ => Or.inl h, fun _ => h⟩
  depth := by
    rintro s t ⟨before, semicolon, -, -, -, -, hdepth, -⟩
    exact hdepth
  widen := Or.inl
  narrow := by
    rintro s t (h | ⟨rfl, rfl⟩) hdepth
    · exact h
    · exact absurd hdepth (Nat.lt_irrefl 0)

/-- Two cursors in front of the same tokens at other places, the last of which ends the input. -/
def MovedTo (place : Span → Span) (s t : Cursor) : Prop :=
  (∃ before last, s.tokens = before ++ [last] ∧ last.kind = .eof) ∧
    t.tokens = s.tokens.map (mapSpan place) ∧ t.depth = s.depth

theorem twin_movedTo (place : Span → Span) : Twin place (MovedTo place) (MovedTo place) where
  next := by
    rintro ⟨_, depth⟩ ⟨_, _⟩ ⟨⟨before, last, rfl, hlast⟩, htokens, hsame⟩
    cases htokens
    cases hsame
    cases before with
    | nil =>
      refine ⟨last, _, _, rfl, rfl, fun hkind => ?_, fun hstop => ?_⟩
      · rw [hlast] at hkind
        cases hkind
      · exact absurd (hlast ▸ hstop) (by decide)
    | cons first before =>
      have h : MovedTo place ⟨before ++ [last], first.kind.depthAfter depth⟩
          ⟨(before ++ [last]).map (mapSpan place), first.kind.depthAfter depth⟩ :=
        ⟨⟨before, last, rfl, hlast⟩, rfl, rfl⟩
      exact ⟨first, _, _, rfl, rfl, fun _ => h, fun _ => h⟩
  depth := fun h => h.2.2
  widen := id
  narrow := fun h _ => h

theorem movedTo_ofSource (place : Span → Span) (source : String) :
    MovedTo place (Cursor.ofSource source) ⟨(Token.stream source).map (mapSpan place), 0⟩ := by
  obtain ⟨before, last, hstream, hlast, -⟩ := streamFrom_eq_append_eof source.toList 0
  exact ⟨⟨before, last, hstream, hlast⟩, rfl, rfl⟩

theorem program_of_movedTo {place : Span → Span} {s t : Cursor} (h : MovedTo place s t) :
    t.program.1 = s.program.1.mapSpans place := by
  obtain ⟨shared, s', t', hs, ht, hrest, hend⟩ := (twin_movedTo place).program s t h
  have hend' : t'.atEnd = true := by
    rw [(twin_movedTo place).atEnd_eq hrest]
    exact hend hrest
  rw [hs, ht, program_of_atEnd (hend hrest), program_of_atEnd hend', Program.mapSpans_append]
  rfl

/-- A text that ends in a semicolon outside all braces keeps its statements and errors, and so does
the text behind it. -/
theorem ofSource_append (first second : String) {before : List Token} {semicolon eof : Token}
    (hstream : Token.stream first = before ++ [semicolon, eof])
    (hkind : semicolon.kind = .semicolon) (hdepth : braceDepth 0 before = 0) :
    Program.ofSource (first ++ second)
      = Program.ofSource first
        ++ (Program.ofSource second).mapSpans (Span.shift (Text.byteLength first.toList)) := by
  have hends : Token.stream first = (before ++ [semicolon]) ++ [eof] := by
    rw [hstream, List.append_assoc, List.singleton_append]
  obtain ⟨heof, hne⟩ := kind_of_stream_eq hends
  have hshares : SharesUpTo [eof]
      ((Token.stream second).map (mapSpan (Span.shift (Text.byteLength first.toList))))
      (Cursor.ofSource first) (Cursor.ofSource (first ++ second)) :=
    ⟨before, semicolon, hstream, stream_append second hstream hkind, hkind,
      fun token htoken => hne token (List.mem_append_left _ htoken), rfl, hdepth⟩
  obtain ⟨shared, s', t', hs, ht, hreached, hend⟩ :=
    (twin_sharesUpTo _ _).program _ _ (Or.inl hshares)
  -- What the two readings share can only end behind the semicolon.
  rcases hreached with hinside | ⟨rfl, rfl⟩
  · exact absurd (hend hinside) hinside.not_atEnd
  · have hfirst : Program.ofSource first = shared := by
      have hlast : Cursor.atEnd ⟨[eof], 0⟩ = true := by simp [atEnd, kind?, peek?, heof]
      rw [Program.ofSource, hs, program_of_atEnd hlast, Program.append_empty]
    rw [Program.ofSource, ht, Program.mapSpans_id, hfirst,
      program_of_movedTo (movedTo_ofSource _ second)]
    rfl

/-- A stray brace, a group that is not closed within a block, and a list that is not closed. -/
theorem ofSource_append_errors :
    let first := "\x7d let f = fn(x) \x7b (1; 2; \x7d; let y = 3; [1, 2;"
    let second := "let = 4; y"
    let before := (Token.stream first).take 25
    let semicolon : Token := ⟨.semicolon, ";", .ofBounds 44 45⟩
    Token.stream first = before ++ [semicolon, .eofAt 45] ∧ semicolon.kind = .semicolon ∧
      braceDepth 0 before = 0 ∧ (Program.ofSource first).errors.length = 3 ∧
        Program.ofSource (first ++ second)
          = Program.ofSource first
            ++ (Program.ofSource second).mapSpans (Span.shift (Text.byteLength first.toList)) := by
  intro first second before semicolon
  have hstream : Token.stream first = before ++ [semicolon, .eofAt 45] := by decide +kernel
  have hdepth : braceDepth 0 before = 0 := by decide +kernel
  exact ⟨hstream, rfl, hdepth, by decide +kernel, ofSource_append first second hstream rfl hdepth⟩

end Scriptlet.Grammar
