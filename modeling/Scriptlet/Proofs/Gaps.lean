import Mathlib.Data.List.Chain
import Scriptlet.Proofs.Words

/-! # Words with gaps between them

Words are put one behind the other with blank characters between them. The text is read as these
words if there is a gap at least where two words would run together: between letters and letters,
between digits and digits, and in front of a `=` that would become part of the sign before it.
-/

namespace Scriptlet.Token

open Text

namespace Kind

/-- The kinds of token that are spelt with letters. -/
def IsLetters (kind : Kind) : Prop :=
  kind = ident ∨ kind ∈ keywords.map (·.2)

/-- Two words of these kinds run together when nothing stands between them. -/
def RunsInto (first second : Kind) : Prop :=
  first.IsLetters ∧ second.IsLetters ∨ first = int ∧ second = int ∨
    first ∈ [assign, bang] ∧ second ∈ [assign, equal]

instance (kind : Kind) : Decidable kind.IsLetters :=
  inferInstanceAs (Decidable (_ ∨ _))

instance (first second : Kind) : Decidable (first.RunsInto second) :=
  inferInstanceAs (Decidable (_ ∨ _))

theorem endsBefore_of_isBlank (kind : Kind) {c : Char} (h : isBlank c = true) :
    kind.endsBefore c = true := by
  have hword : Lexeme.isWordChar c = false := by
    rw [Bool.eq_false_iff]
    intro hword
    rw [(classes_of_isWordChar hword).1] at h
    cases h
  have hdigit : c.isDigit = false := by
    rw [Bool.eq_false_iff]
    intro hdigit
    rw [(classes_of_isDigit hdigit).1] at h
    cases h
  have hequal : (c != '=') = true := by
    rw [bne_iff_ne]
    rintro rfl
    exact absurd h (by decide)
  cases kind <;> simp [endsBefore, hword, hdigit, hequal]

/-- The first character of a word that is always spelt the same way tells what it may run into. -/
theorem runsInto_of_text? {kind : Kind} {text : String} (h : kind.text? = some text) :
    ∃ c cs, text.toList = c :: cs ∧ (Lexeme.isWordChar c = true → kind.IsLetters) ∧
      c.isDigit = false ∧ (c = '=' → kind ∈ [assign, equal]) := by
  cases kind <;> cases h <;>
    exact ⟨_, _, rfl, by simp only [IsLetters]; decide +kernel, by decide, by decide⟩

end Kind

namespace Word

/-- What the first character of a word tells about the kind of the word. -/
theorem Proper.chars_eq_cons {word : Word} (h : word.Proper) :
    ∃ c cs, word.chars = c :: cs ∧ (Lexeme.isWordChar c = true → word.1.IsLetters) ∧
      (c.isDigit = true → word.1 = .int) ∧ (c = '=' → word.1 ∈ [.assign, .equal]) := by
  obtain ⟨kind, literal⟩ := word
  cases kind
  case eof => exact h.elim
  case illegal =>
    obtain ⟨c, hliteral, -, -, hother, hword, hdigit⟩ := h
    refine ⟨c, [], hliteral, ?_, ?_, ?_⟩
    · intro h
      rw [hword] at h
      cases h
    · intro h
      rw [hdigit] at h
      cases h
    · rintro rfl
      exact absurd hother (by decide)
  case ident =>
    obtain ⟨hne, hall, -⟩ := h
    obtain ⟨c, cs, hliteral⟩ := List.exists_cons_of_ne_nil hne
    have hword : Lexeme.isWordChar c = true := hall c (hliteral ▸ List.mem_cons_self)
    refine ⟨c, cs, hliteral, fun _ => Or.inl rfl, ?_, ?_⟩
    · intro hdigit
      rw [(classes_of_isDigit hdigit).2.2.2] at hword
      cases hword
    · rintro rfl
      exact absurd hword (by decide +kernel)
  case int =>
    obtain ⟨hne, hall⟩ := h
    obtain ⟨c, cs, hliteral⟩ := List.exists_cons_of_ne_nil hne
    have hdigit : c.isDigit = true := hall c (hliteral ▸ List.mem_cons_self)
    refine ⟨c, cs, hliteral, ?_, fun _ => rfl, ?_⟩
    · intro hword
      rw [(classes_of_isDigit hdigit).2.2.2] at hword
      cases hword
    · rintro rfl
      exact absurd hdigit (by decide)
  case string =>
    refine ⟨'"', _, rfl, fun h => ?_, fun h => ?_, fun h => ?_⟩
    · exact absurd h (by decide +kernel)
    · exact absurd h (by decide)
    · exact absurd h (by decide)
  all_goals
    obtain ⟨c, cs, hliteral, hword, hdigit, hequal⟩ := Kind.runsInto_of_text? h
    refine ⟨c, cs, hliteral, hword, fun h => ?_, hequal⟩
    rw [hdigit] at h
    cases h

/-- A word does not run into a blank character. -/
theorem apart_of_isBlank (word : Word) {c : Char} (h : isBlank c = true) (rest : List Char) :
    word.Apart (c :: rest) := by
  rintro _ ⟨⟩
  exact word.1.endsBefore_of_isBlank h

theorem apart_of_not_runsInto {first second : Word} (hsecond : second.Proper)
    (h : ¬first.1.RunsInto second.1) (rest : List Char) :
    first.Apart (second.chars ++ rest) := by
  obtain ⟨c, cs, hchars, hword, hdigit, hequal⟩ := hsecond.chars_eq_cons
  rw [hchars, List.cons_append]
  rintro _ ⟨⟩
  simp only [Kind.RunsInto, not_or, not_and] at h
  obtain ⟨hletters, hdigits, hsign⟩ := h
  obtain ⟨kind, literal⟩ := first
  have hfirst : kind.IsLetters → Lexeme.isWordChar c = false := fun hkind =>
    Bool.eq_false_iff.mpr fun h => hletters hkind (hword h)
  cases kind
  case assign | bang =>
    refine bne_iff_ne.mpr fun h => hsign (by simp) (hequal h)
  case int =>
    simp only [Kind.endsBefore, Bool.not_eq_true']
    exact Bool.eq_false_iff.mpr fun h => hdigits rfl (hdigit h)
  case ident | fnWord | letWord | trueWord | falseWord | ifWord | elseWord | returnWord =>
    simp only [Kind.endsBefore, Bool.not_eq_true']
    exact hfirst (by simp [Kind.IsLetters, Kind.keywords])
  all_goals rfl

end Word

/-! ### Texts with gaps -/

/-- The text of words, each with a gap in front of it. -/
def laidOut (pieces : List (List Char × Word)) : List Char :=
  pieces.flatMap fun (gap, word) => gap ++ word.chars

/-- There is a gap at least where two words would run together. -/
def Spaced (pieces : List (List Char × Word)) : Prop :=
  pieces.IsChain fun first second => first.2.1.RunsInto second.2.1 → second.1 ≠ []

instance (cs : List Char) : Decidable (Blank cs) :=
  decidable_of_iff (cs.all isBlank = true) List.all_eq_true

instance (pieces : List (List Char × Word)) : Decidable (Spaced pieces) :=
  inferInstanceAs (Decidable (pieces.IsChain _))

theorem words_append_blank {blanks : List Char} (h : Blank blanks) (cs : List Char) :
    words (blanks ++ cs) = words cs := by
  rw [words, streamFrom_append_blank h, map_word_streamFrom]

theorem apart_laidOut {word : Word} {pieces : List (List Char × Word)} {last : List Char}
    (hpieces : ∀ piece ∈ pieces, Blank piece.1 ∧ piece.2.Proper) (hlast : Blank last)
    (hnext : ∀ piece ∈ pieces.head?, word.1.RunsInto piece.2.1 → piece.1 ≠ []) :
    word.Apart (laidOut pieces ++ last) := by
  cases pieces with
  | nil =>
    cases last with
    | nil => exact nofun
    | cons c last => exact word.apart_of_isBlank (hlast c List.mem_cons_self) last
  | cons piece rest =>
    obtain ⟨gap, next⟩ := piece
    obtain ⟨hblank, hproper⟩ := hpieces _ List.mem_cons_self
    rw [laidOut, List.flatMap_cons, List.append_assoc, List.append_assoc]
    cases gap with
    | nil =>
      have hapart : ¬word.1.RunsInto next.1 := fun h => hnext _ rfl h rfl
      exact Word.apart_of_not_runsInto hproper hapart _
    | cons c gap => exact word.apart_of_isBlank (hblank c List.mem_cons_self) _

theorem words_laidOut {pieces : List (List Char × Word)} {last : List Char}
    (hpieces : ∀ piece ∈ pieces, Blank piece.1 ∧ piece.2.Proper) (hlast : Blank last)
    (hspaced : Spaced pieces) :
    words (laidOut pieces ++ last) = pieces.map (·.2) ++ [(.eof, "")] := by
  induction pieces with
  | nil => exact words_of_blank hlast
  | cons piece rest ih =>
    obtain ⟨gap, word⟩ := piece
    obtain ⟨⟨hblank, hproper⟩, hrest⟩ := List.forall_mem_cons.mp hpieces
    obtain ⟨hnext, hspacedRest⟩ := List.isChain_cons.mp hspaced
    have hapart : word.Apart (laidOut rest ++ last) := apart_laidOut hrest hlast hnext
    calc words (laidOut ((gap, word) :: rest) ++ last)
        = words (gap ++ (word.chars ++ (laidOut rest ++ last))) := by
          simp only [laidOut, List.flatMap_cons, List.append_assoc]
      _ = word :: words (laidOut rest ++ last) := by
          rw [words_append_blank hblank, words_append hproper hapart]
      _ = word :: (rest.map (·.2) ++ [(.eof, "")]) := by rw [ih hrest hspacedRest]

/-- Words with blank characters between them, wherever two of them would otherwise run together,
are read as just these words, with the end of input behind them. -/
theorem stream_laidOut {pieces : List (List Char × Word)} {last : List Char}
    (hpieces : ∀ piece ∈ pieces, Blank piece.1 ∧ piece.2.Proper) (hlast : Blank last)
    (hspaced : Spaced pieces) :
    (stream (String.ofList (laidOut pieces ++ last))).map word
      = pieces.map (·.2) ++ [(.eof, "")] := by
  rw [stream, map_word_streamFrom, String.toList_ofList]
  exact words_laidOut hpieces hlast hspaced

/-- Digits in front of letters, a `!` in front of `==` and that in front of `=`, an ideographic
space, and a character that is in no lexeme. -/
theorem stream_laidOut_tight :
    let pieces : List (List Char × Word) :=
      [([], (.int, "5")), ([], (.fnWord, "fn")), ([' '], (.ident, "é_")), ([], (.bang, "!")),
        (['\u3000'], (.equal, "==")), ([], (.assign, "=")), ([], (.string, "a b")),
        ([], (.illegal, "@"))]
    let last := ['\n']
    (∀ piece ∈ pieces, Blank piece.1 ∧ piece.2.Proper) ∧ Blank last ∧ Spaced pieces ∧
      (stream (String.ofList (laidOut pieces ++ last))).map word
        = pieces.map (·.2) ++ [(.eof, "")] := by
  intro pieces last
  have hblanks : ∀ piece ∈ pieces, Blank piece.1 := by decide
  have hproper : ∀ piece ∈ pieces, piece.2.Proper := by
    simp only [pieces, List.forall_mem_cons]
    refine ⟨⟨by decide, List.all_eq_true.mp (by decide)⟩, rfl,
      ⟨by decide, List.all_eq_true.mp (by decide +kernel), by decide⟩, rfl, rfl, rfl,
      (by decide : '"' ∉ "a b".toList),
      ⟨'@', rfl, by decide, rfl, by decide, by decide +kernel, by decide⟩, nofun⟩
  have hpieces : ∀ piece ∈ pieces, Blank piece.1 ∧ piece.2.Proper :=
    fun piece hpiece => ⟨hblanks piece hpiece, hproper piece hpiece⟩
  have hlast : Blank last := by decide
  have hspaced : Spaced pieces := by decide
  exact ⟨hpieces, hlast, hspaced, stream_laidOut hpieces hlast hspaced⟩

end Scriptlet.Token
