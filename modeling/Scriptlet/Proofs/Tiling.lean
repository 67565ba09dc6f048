import Mathlib.Data.List.Chain
import Scriptlet.Proofs.Stream

/-! # Tokens tile the source

The slices of a source that its tokens cover follow one another with nothing but blank characters
between them, from the start of the source to its end. Apart from the quotes of strings, the literal
of a token is the text that it covers.
-/

namespace Scriptlet

namespace Text

/-- The piece is what stands in the text between two byte offsets. -/
def IsSlice (cs : List Char) (start stop : Nat) (piece : List Char) : Prop :=
  ∃ before after, cs = before ++ (piece ++ after) ∧ byteLength before = start ∧
    start + byteLength piece = stop

end Text

namespace Token

open Text

/-- How the text of a token is made of its literal. A string without a closing quote is the last
token of the source and ends with it. -/
def Kind.Written (kind : Kind) (literal piece : List Char) (last : Prop) : Prop :=
  if kind = string then
    '"' ∉ literal ∧ (piece = '"' :: (literal ++ ['"']) ∨ piece = '"' :: literal ∧ last)
  else piece = literal

namespace Kind

theorem ofMark?_ne_string (c : Char) : ofMark? c ≠ some string := by
  unfold ofMark?
  split <;> exact nofun

theorem ofWord_ne_string (word : String) : ofWord word ≠ string := by
  unfold ofWord
  cases h : keyword? word with
  | none => exact nofun
  | some kind =>
    have hall : ∀ entry ∈ keywords, entry.2 ≠ string := by decide
    exact hall _ (mem_keywords_of_keyword? h)

end Kind

def BlankBetween (cs : List Char) (start stop : Nat) : Prop :=
  ∃ blanks, IsSlice cs start stop blanks ∧ Blank blanks

theorem BlankBetween.le {cs : List Char} {start stop : Nat} (h : BlankBetween cs start stop) :
    start ≤ stop := by
  obtain ⟨_, ⟨_, _, -, -, hstop⟩, -⟩ := h
  omega

/-! ### The text of a lexeme -/

namespace Lexeme

theorem written_string (cs : List Char) :
    Kind.string.Written (string cs).literal (string cs).covered ((string cs).rest = []) := by
  have hbody := quote_notMem_takeWhile cs
  rw [Kind.Written, if_pos rfl]
  simp only [string]
  cases hdrop : cs.dropWhile (· != '"') with
  | nil => exact ⟨hbody, Or.inr ⟨rfl, rfl⟩⟩
  | cons quote rest =>
    have hquote : quote = '"' := by
      have hhead := List.head?_dropWhile_not (· != '"') cs
      rw [hdrop] at hhead
      simpa using hhead
    exact ⟨hbody, Or.inl (by rw [hquote])⟩

theorem written_plain {kind : Kind} (hkind : kind ≠ .string) (covered rest : List Char)
    (last : Prop) :
    (plain kind covered rest).kind.Written (plain kind covered rest).literal
      (plain kind covered rest).covered last := by
  simp only [plain, Kind.Written, if_neg hkind]

theorem written_maybeEqual {alone withEqual : Kind} (halone : alone ≠ .string)
    (hequal : withEqual ≠ .string) (c : Char) (cs : List Char) (last : Prop) :
    (maybeEqual alone withEqual c cs).kind.Written (maybeEqual alone withEqual c cs).literal
      (maybeEqual alone withEqual c cs).covered last := by
  unfold maybeEqual
  split
  · exact written_plain hequal _ _ last
  · exact written_plain halone _ _ last

theorem written_read (c : Char) (cs : List Char) :
    (read c cs).kind.Written (read c cs).literal (read c cs).covered ((read c cs).rest = []) := by
  unfold read
  split
  · next kind hmark =>
    exact written_plain (fun h => Kind.ofMark?_ne_string c (h ▸ hmark)) _ _ _
  · split
    · exact written_maybeEqual (by decide) (by decide) _ _ _
    · split
      · exact written_maybeEqual (by decide) (by decide) _ _ _
      · split
        · rw [kind_string]
          exact written_string cs
        · split
          · exact written_plain (Kind.ofWord_ne_string _) _ _ _
          · split <;> exact written_plain (by decide) _ _ _

end Lexeme

/-! ### Tilings -/

/-- From an offset on, the tokens cover the text but for blank characters in front of each of
them. -/
inductive TilesFrom (whole : List Char) : Nat → List Token → Prop
  | eof {offset} : BlankBetween whole offset (byteLength whole) →
      TilesFrom whole offset [eofAt (byteLength whole)]
  | token {offset token rest piece} : BlankBetween whole offset token.span.start.toNat →
      token.kind ≠ .eof → IsSlice whole token.span.start.toNat token.span.stop piece →
      piece ≠ [] →
      token.kind.Written token.literal.toList piece (token.span.stop = byteLength whole) →
      TilesFrom whole token.span.stop rest → TilesFrom whole offset (token :: rest)

theorem tilesFrom_streamFrom (cs : List Char) : ∀ before, byteLength (before ++ cs) < 2 ^ 32 →
    TilesFrom (before ++ cs) (byteLength before) (streamFrom (byteLength before) cs) := by
  induction cs using lexemeInduction with
  | blank cs hblank =>
    intro before _
    rw [streamFrom_blank hblank, ← byteLength_append]
    refine .eof ⟨cs, ⟨before, [], ?_, rfl, ?_⟩, hblank⟩
    · rw [List.append_nil]
    · rw [byteLength_append]
  | lexeme blanks c ds hblank hc ih =>
    intro before hsize
    have hread := Lexeme.read_covered_append_rest c ds
    have hwritten := Lexeme.written_read c ds
    have hne := Lexeme.read_covered_ne_nil c ds
    have hkind := Lexeme.kind_read_ne_eof c ds
    rw [streamFrom_lexeme hblank hc]
    generalize Lexeme.read c ds = lexeme at hread hwritten hne hkind ih
    have hwhole : before ++ (blanks ++ c :: ds)
        = (before ++ blanks ++ lexeme.covered) ++ lexeme.rest := by
      rw [← hread]
      simp only [List.append_assoc]
    have hstop : byteLength before + byteLength blanks + byteLength lexeme.covered
        = byteLength (before ++ blanks ++ lexeme.covered) := by
      simp only [byteLength_append]
    have hend : byteLength (before ++ (blanks ++ c :: ds))
        = byteLength before + byteLength blanks + byteLength lexeme.covered
          + byteLength lexeme.rest := by
      rw [hwhole, byteLength_append, hstop]
    obtain ⟨htokenStart, htokenStop⟩ :=
      span_tokenAt lexeme (byteLength before + byteLength blanks) (by omega)
    refine .token ?_ hkind ?_ hne ?_ ?_
    · rw [htokenStart]
      exact ⟨blanks, ⟨before, c :: ds, rfl, rfl, rfl⟩, hblank⟩
    · rw [htokenStart, htokenStop, hwhole]
      exact ⟨before ++ blanks, lexeme.rest, by rw [List.append_assoc], byteLength_append _ _, rfl⟩
    · have hlast : (lexeme.tokenAt (byteLength before + byteLength blanks)).span.stop
          = byteLength (before ++ (blanks ++ c :: ds)) ↔ lexeme.rest = [] := by
        rw [htokenStop, hend]
        constructor
        · intro h
          refine Decidable.byContradiction fun hrest => ?_
          have := byteLength_pos hrest
          omega
        · intro h
          rw [h, byteLength_nil, Nat.add_zero]
      rw [propext hlast, Lexeme.tokenAt, String.toList_ofList]
      exact hwritten
    · rw [htokenStop, hstop, hwhole]
      exact ih _ (hwhole ▸ hsize)

theorem length_streamFrom_le (cs : List Char) :
    ∀ offset, (streamFrom offset cs).length ≤ cs.length + 1 := by
  induction cs using lexemeInduction with
  | blank cs hblank =>
    intro offset
    rw [streamFrom_blank hblank]
    exact Nat.succ_le_succ (Nat.zero_le _)
  | lexeme blanks c ds hblank hc ih =>
    intro offset
    have hrest := Lexeme.length_rest_read_le c ds
    have := ih (offset + byteLength blanks + byteLength (Lexeme.read c ds).covered)
    rw [streamFrom_lexeme hblank hc]
    simp only [List.length_cons, List.length_append]
    omega

namespace TilesFrom

variable {whole : List Char} {offset : Nat} {tokens : List Token}

theorem eq_append_eof (h : TilesFrom whole offset tokens) :
    ∃ before, tokens = before ++ [eofAt (byteLength whole)] ∧
      ∀ token ∈ before, token.kind ≠ .eof := by
  induction h with
  | eof _ => exact ⟨[], rfl, nofun⟩
  | @token offset token rest piece _ hkind _ _ _ _ ih =>
    obtain ⟨before, rfl, hbefore⟩ := ih
    exact ⟨token :: before, rfl, List.forall_mem_cons.mpr ⟨hkind, hbefore⟩⟩

theorem isSlice_eof (hsize : byteLength whole < 2 ^ 32) :
    IsSlice whole (eofAt (byteLength whole)).span.start.toNat
      (eofAt (byteLength whole)).span.stop [] := by
  rw [eofAt, Span.start_ofBounds hsize, Span.stop_ofBounds (Nat.le_refl _) hsize]
  exact ⟨whole, [], by simp, rfl, rfl⟩

/-- Every token covers a slice of the text, which is empty only for the end of input. -/
theorem exists_slice (h : TilesFrom whole offset tokens) (hsize : byteLength whole < 2 ^ 32) :
    ∀ token ∈ tokens, ∃ piece, IsSlice whole token.span.start.toNat token.span.stop piece ∧
      token.kind.Written token.literal.toList piece (token.span.stop = byteLength whole) ∧
      (token.kind ≠ .eof → piece ≠ []) := by
  induction h with
  | eof _ =>
    refine List.forall_mem_singleton.mpr ⟨[], isSlice_eof hsize, rfl, ?_⟩
    exact fun hkind => absurd rfl hkind
  | token _ _ hslice hne hwritten _ ih =>
    exact List.forall_mem_cons.mpr ⟨⟨_, hslice, hwritten, fun _ => hne⟩, ih⟩

theorem blankBetween_head? (h : TilesFrom whole offset tokens) (hsize : byteLength whole < 2 ^ 32) :
    ∀ first ∈ tokens.head?, BlankBetween whole offset first.span.start.toNat := by
  rintro _ hfirst
  cases h with
  | eof hblank =>
    cases hfirst
    rwa [eofAt, Span.start_ofBounds hsize]
  | token hblank =>
    cases hfirst
    exact hblank

theorem isChain (h : TilesFrom whole offset tokens) (hsize : byteLength whole < 2 ^ 32) :
    tokens.IsChain fun first second =>
      BlankBetween whole first.span.stop second.span.start.toNat := by
  induction h with
  | eof _ => exact .singleton _
  | token _ _ _ _ _ hrest ih => exact List.isChain_cons.mpr ⟨hrest.blankBetween_head? hsize, ih⟩

end TilesFrom

/-- The tokens, of which only the last ends the input, cover slices of the text that follow one
another, with only blank characters in front of the first one and between them. -/
structure Tiling (whole : List Char) (tokens : List Token) : Prop where
  length_le : tokens.length ≤ whole.length + 1
  ends : ∃ before, tokens = before ++ [eofAt (byteLength whole)] ∧
    ∀ token ∈ before, token.kind ≠ .eof
  eof : (eofAt (byteLength whole)).span.start.toNat = byteLength whole ∧
    (eofAt (byteLength whole)).span.stop = byteLength whole
  covers : ∀ token ∈ tokens, ∃ piece,
    IsSlice whole token.span.start.toNat token.span.stop piece ∧
      token.kind.Written token.literal.toList piece (token.span.stop = byteLength whole) ∧
      (token.kind ≠ .eof → piece ≠ [])
  first : ∀ token ∈ tokens.head?, BlankBetween whole 0 token.span.start.toNat
  next : tokens.IsChain fun token following =>
    token.span.stop ≤ following.span.start.toNat ∧
      BlankBetween whole token.span.stop following.span.start.toNat

/-- A source that is not too long for its offsets is tiled by its tokens. -/
theorem tiling_stream {source : String} (hsize : byteLength source.toList < 2 ^ 32) :
    Tiling source.toList (stream source) := by
  have htiles : TilesFrom source.toList 0 (stream source) :=
    tilesFrom_streamFrom source.toList [] hsize
  exact {
    length_le := length_streamFrom_le source.toList 0
    ends := htiles.eq_append_eof
    eof := ⟨Span.start_ofBounds hsize, Span.stop_ofBounds (Nat.le_refl _) hsize⟩
    covers := htiles.exists_slice hsize
    first := htiles.blankBetween_head? hsize
    next := (htiles.isChain hsize).imp fun _ _ hblank => ⟨hblank.le, hblank⟩ }

/-- A letter of two bytes, a character that is in no lexeme, a blank of three bytes, and a string
that is not closed. -/
theorem tiling_stream_unclosed :
    let source := "é@ \u3000\"a;"
    byteLength source.toList < 2 ^ 32 ∧ Tiling source.toList (stream source) := by
  intro source
  have hsize : byteLength source.toList < 2 ^ 32 := by decide
  exact ⟨hsize, tiling_stream hsize⟩

end Token

end Scriptlet
