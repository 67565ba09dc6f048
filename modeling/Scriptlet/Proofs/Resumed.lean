import Scriptlet.Proofs.Braces
import Scriptlet.Proofs.Compose
import Scriptlet.Proofs.Consumption

/-! # Reading on behind expressions

A parser that has read expressions stands in front of the rest of its source, and reads it as the
program that the rest is when it stands alone. Neither the place of the rest nor the braces that
were opened in front of it make a difference.
-/

namespace Scriptlet

open Text

namespace Token

/-- The tokens that are left of a stream are the stream of what is left of the text, from the first
of these tokens on. -/
theorem exists_rest_of_streamFrom (cs : List Char) : ∀ {offset : Nat} {taken left : List Token},
    streamFrom offset cs = taken ++ left → left ≠ [] →
      ∃ before rest, cs = before ++ rest ∧ left = streamFrom (offset + byteLength before) rest ∧
        ∀ first ∈ left.head?, first.span.start = (offset + byteLength before).toUInt32 := by
  induction cs using lexemeInduction with
  | blank cs hblank =>
    intro offset taken left h hne
    rw [streamFrom_blank hblank] at h
    obtain ⟨first, rest, rfl⟩ := List.exists_cons_of_ne_nil hne
    obtain ⟨rfl, hleft⟩ : taken = [] ∧ first :: rest = [eofAt (offset + byteLength cs)] := by
      cases taken with
      | nil => exact ⟨rfl, h.symm⟩
      | cons head tail => simp at h
    refine ⟨cs, [], (List.append_nil cs).symm, ?_, ?_⟩
    · rw [hleft, streamFrom_blank (List.forall_mem_nil _), byteLength_nil, Nat.add_zero]
    · rw [hleft]
      rintro _ ⟨⟩
      rfl
  | lexeme blanks c ds hblank hc ih =>
    intro offset taken left h hne
    cases taken with
    | nil =>
      refine ⟨blanks, c :: ds, rfl, ?_, ?_⟩
      · rw [← streamFrom_append_blank hblank, h, List.nil_append]
      · rw [← show streamFrom offset (blanks ++ c :: ds) = left from h,
          streamFrom_lexeme hblank hc]
        rintro _ ⟨⟩
        rfl
    | cons head tail =>
      rw [streamFrom_lexeme hblank hc, List.cons_append] at h
      obtain ⟨before, rest, hrest, hleft, hfirst⟩ := ih (List.cons.inj h).2 hne
      have hcovered := Lexeme.read_covered_append_rest c ds
      refine ⟨blanks ++ (Lexeme.read c ds).covered ++ before, rest, ?_, ?_, ?_⟩
      · rw [List.append_assoc, List.append_assoc, ← hrest, hcovered]
      · simpa only [byteLength_append, Nat.add_assoc] using hleft
      · simpa only [byteLength_append, Nat.add_assoc] using hfirst

end Token

namespace Grammar

open Cursor

/-- The cursor behind this many expressions, if they can all be read. -/
def Cursor.behindExpressions? : Nat → Cursor → Option Cursor
  | 0, s => some s
  | count + 1, s =>
    match s.expression with
    | .ok _ t _ => behindExpressions? count t
    | .fail _ _ _ => none

/-- Outside all braces, or at the end of the input. -/
def Cursor.Outside (s : Cursor) : Prop :=
  s.depth = 0 ∨ s.atEnd = true

theorem Cursor.Outside.expression {s t : Cursor} (hs : s.Outside) {value : Expr Token}
    {shorter : t.size < s.size} (h : s.expression = .ok value t shorter) : t.Outside := by
  have hcloses := (reads_expressionAbove 0 s value t shorter h).closes (Nat.zero_le _)
  rcases hs with hdepth | hend
  · exact hcloses.depth.imp_left fun heq => heq.trans hdepth
  · -- Nothing can be read at the end of the input.
    exact absurd (hcloses.stays.eq_of_atEnd hend) fun heq => Nat.lt_irrefl _ (heq ▸ shorter)

theorem outside_behindExpressions {count : Nat} {s t : Cursor} (hs : s.Outside)
    (h : s.behindExpressions? count = some t) :
    t.Outside ∧ s.Crosses (· ≠ .eof) t := by
  induction count generalizing s with
  | zero =>
    cases h
    exact ⟨hs, .refl _⟩
  | succ count ih =>
    rw [behindExpressions?] at h
    have horderly := orderly_expressionAbove 0 s
    cases hread : s.expression with
    | fail error u within =>
      rw [hread] at h
      cases h
    | ok value u shorter =>
      rw [hread] at h
      rw [show s.expressionAbove 0 = _ from hread] at horderly
      obtain ⟨houtside, hcross⟩ := ih (hs.expression hread) h
      exact ⟨houtside, (Crosses.imp horderly ne_eof_of_grammatical).trans hcross⟩

/-- At the end of the input the number of open braces makes no difference. -/
theorem program_of_outside {s : Cursor} (h : s.Outside) :
    s.program.1 = (Cursor.program ⟨s.tokens, 0⟩).1 := by
  rcases h with hdepth | hend
  · rw [← hdepth]
  · have hend' : Cursor.atEnd ⟨s.tokens, 0⟩ = true := hend
    rw [program_of_atEnd hend, program_of_atEnd hend']

/-- Behind any number of expressions, a source goes on as the program that begins at the first token
that is left. -/
theorem program_behindExpressions {source : String} (hsize : byteLength source.toList < 2 ^ 32)
    {count : Nat} {s : Cursor} (h : (ofSource source).behindExpressions? count = some s) :
    ∃ before rest token, source.toList = before ++ rest ∧
      s.peek? = some token ∧ token.span.start.toNat = byteLength before ∧
      s.tokens = (Token.stream (String.ofList rest)).map
        (Token.mapSpan (Span.shift (byteLength before))) ∧
      s.program.1
        = (Program.ofSource (String.ofList rest)).mapSpans (Span.shift (byteLength before)) := by
  obtain ⟨hs, hcross⟩ := outside_behindExpressions (Or.inl rfl) h
  obtain ⟨token, htoken, hpeek⟩ := ((bounded_ofSource source).of_crosses hcross).exists_peek?
  obtain ⟨taken, htaken, -⟩ := hcross
  obtain ⟨before, rest, hsource, hleft, hfirst⟩ :=
    Token.exists_rest_of_streamFrom source.toList htaken (List.ne_nil_of_mem htoken)
  have hbefore : byteLength before < 2 ^ 32 := by
    rw [hsource, byteLength_append] at hsize
    omega
  have htokens : s.tokens = (Token.stream (String.ofList rest)).map
      (Token.mapSpan (Span.shift (byteLength before))) := by
    rw [hleft, Nat.zero_add, Token.stream, String.toList_ofList, ← Token.streamFrom_add,
      Nat.add_zero]
  refine ⟨before, rest, token, hsource, hpeek, ?_, htokens, ?_⟩
  · rw [hfirst token hpeek, Nat.zero_add]
    exact UInt32.toNat_ofNat_of_lt' hbefore
  · rw [program_of_outside hs, htokens]
    exact program_of_movedTo (movedTo_ofSource _ (String.ofList rest))

/-- A function whose braces are closed, a number, and behind them statements with errors. -/
theorem program_behindExpressions_errors :
    let source := "fn(x) \x7b \x7bx: 1\x7d[x] \x7d 5 let = 2; é(3); \x7d let y = \x7b\x7d"
    byteLength source.toList < 2 ^ 32 ∧
    ∃ s, (ofSource source).behindExpressions? 2 = some s ∧ s.program.1.errors.length = 2 ∧
      s.program.1.statements.length = 2 ∧
      ∃ before rest token, source.toList = before ++ rest ∧
        s.peek? = some token ∧ token.span.start.toNat = byteLength before ∧
        s.tokens = (Token.stream (String.ofList rest)).map
          (Token.mapSpan (Span.shift (byteLength before))) ∧
        s.program.1
          = (Program.ofSource (String.ofList rest)).mapSpans (Span.shift (byteLength before)) := by
  intro source
  have hsize : byteLength source.toList < 2 ^ 32 := by decide
  have hgood : (match (ofSource source).behindExpressions? 2 with
    | some s => s.program.1.errors.length == 2 && s.program.1.statements.length == 2
    | none => false) = true := by decide +kernel
  cases hs : (ofSource source).behindExpressions? 2 with
  | none =>
    rw [hs] at hgood
    cases hgood
  | some s =>
    rw [hs] at hgood
    obtain ⟨herrors, hstatements⟩ := Bool.and_eq_true_iff.mp hgood
    exact ⟨hsize, s, rfl, eq_of_beq herrors, eq_of_beq hstatements,
      program_behindExpressions hsize hs⟩

end Grammar

end Scriptlet
