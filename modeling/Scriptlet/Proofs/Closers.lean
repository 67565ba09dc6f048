import Scriptlet.Proofs.Words

/-! # Text behind a text

Strings have no escapes, so quotes open and close them by turns, and a text with an odd number of
quotes ends within a string. What follows any other text is read as if it stood alone, if it starts
with a character that goes on with no lexeme, as a closing brace does.
-/

namespace Scriptlet.Token

open Text

/-- The text ends within a string that is not closed: not every quote has a counterpart. -/
def EndsInString (cs : List Char) : Prop :=
  cs.count '"' % 2 = 1

instance (cs : List Char) : Decidable (EndsInString cs) :=
  inferInstanceAs (Decidable (_ = _))

namespace Lexeme

variable {c : Char} {cs : List Char}

theorem quote_notMem_takeWhile_of {p : Char → Bool} (hp : p '"' = false) (cs : List Char) :
    '"' ∉ cs.takeWhile p := by
  intro hmem
  rw [List.all_eq_true.mp List.all_takeWhile _ hmem] at hp
  cases hp

/-- The quotes of a lexeme are those around a string. -/
theorem count_covered_read (hclosed : c = '"' → '"' ∈ cs) :
    (read c cs).covered.count '"' % 2 = 0 := by
  rcases read_cases c with
    ⟨kind, hc, hread⟩ | ⟨_, _, hc, hread⟩ | ⟨hquote, hread⟩ | hread | hread <;>
    rw [hread]
  · simp [plain, hc]
  · unfold maybeEqual
    split <;> simp [plain, hc]
  · have hdrop : cs.dropWhile (· != '"') ≠ [] := fun hnil =>
      dropWhile_quote_eq_nil_iff.mp hnil (hclosed hquote)
    obtain ⟨quote, rest, hcons⟩ := List.exists_cons_of_ne_nil hdrop
    have hhead := List.head?_dropWhile_not (· != '"') cs
    rw [hcons] at hhead
    have hsame : quote = '"' := by simpa using hhead
    have hbody := List.count_eq_zero.mpr (quote_notMem_takeWhile cs)
    simp only [string, hcons, List.count_cons, List.count_append, hbody, hsame]
    rfl
  · have hnone : '"' ∉ (c :: cs).takeWhile isWordChar :=
      quote_notMem_takeWhile_of (by decide +kernel) _
    rw [word, plain, List.count_eq_zero.mpr hnone]
  · have hnone : '"' ∉ (c :: cs).takeWhile Char.isDigit := quote_notMem_takeWhile_of (by decide) _
    rw [integer, plain, List.count_eq_zero.mpr hnone]

end Lexeme

/-- A text ends within a string if its first lexeme is one that is not closed, or if the text behind
the lexeme does. -/
theorem endsInString_lexeme {blanks ds : List Char} {c : Char} (hblank : Blank blanks) :
    EndsInString (blanks ++ c :: ds)
      ↔ c = '"' ∧ '"' ∉ ds ∨ EndsInString (Lexeme.read c ds).rest := by
  have hnone : '"' ∉ blanks := fun hmem => absurd (hblank _ hmem) (by decide)
  by_cases hopen : c = '"' ∧ '"' ∉ ds
  · obtain ⟨rfl, hds⟩ := hopen
    have hodd : EndsInString (blanks ++ '"' :: ds) := by
      rw [EndsInString, List.count_append, List.count_cons_self, List.count_eq_zero.mpr hnone,
        List.count_eq_zero.mpr hds]
    exact iff_of_true hodd (Or.inl ⟨rfl, hds⟩)
  · have hclosed : c = '"' → '"' ∈ ds := fun hc =>
      Decidable.not_not.mp fun hds => hopen ⟨hc, hds⟩
    have heven := Lexeme.count_covered_read hclosed
    rw [or_iff_right hopen, EndsInString, EndsInString, ← Lexeme.read_covered_append_rest c ds,
      List.count_append, List.count_append, List.count_eq_zero.mpr hnone]
    omega

/-- A text is read the same with text behind it, which is then read as if it stood alone. -/
theorem streamFrom_append_of_separate {more : List Char} (hmore : Lexeme.Separate more)
    (cs : List Char) :
    ∀ {offset : Nat} {before : List Token} {last : Token}, ¬EndsInString cs →
      streamFrom offset cs = before ++ [last] →
        streamFrom offset (cs ++ more) = before ++ streamFrom (offset + byteLength cs) more := by
  induction cs using lexemeInduction with
  | blank cs hblank =>
    intro offset before last _ h
    rw [streamFrom_blank hblank] at h
    obtain ⟨rfl, -⟩ := List.append_eq_singleton_iff.mp h.symm |>.resolve_right (by simp)
    exact streamFrom_append_blank hblank more offset
  | lexeme blanks c ds hblank hc ih =>
    intro offset before last hstring h
    rw [endsInString_lexeme hblank, not_or, not_and, Decidable.not_not] at hstring
    obtain ⟨hclosed, hbehind⟩ := hstring
    have hread := Lexeme.read_append_of_separate (fun _ => hmore) hclosed
    have hbytes := congrArg byteLength (Lexeme.read_covered_append_rest c ds)
    rw [byteLength_append] at hbytes
    have hplace : offset + byteLength (blanks ++ c :: ds)
        = offset + byteLength blanks + byteLength (Lexeme.read c ds).covered
          + byteLength (Lexeme.read c ds).rest := by
      rw [byteLength_append, ← hbytes]
      omega
    rw [streamFrom_lexeme hblank hc] at h
    cases before with
    | nil =>
      obtain ⟨others, heof, hrest, -⟩ := streamFrom_eq_append_eof (Lexeme.read c ds).rest
        (offset + byteLength blanks + byteLength (Lexeme.read c ds).covered)
      rw [hrest] at h
      simp at h
    | cons first before =>
      obtain ⟨rfl, hrest⟩ := List.cons.inj h
      rw [List.append_assoc, List.cons_append, streamFrom_lexeme hblank hc, hread, hplace]
      exact congrArg (_ :: ·) (ih hbehind hrest)

/-! ### Closing braces -/

theorem separate_replicate (count : Nat) : Lexeme.Separate (List.replicate count '}') := by
  cases count with
  | zero => exact nofun
  | succ count =>
    rintro _ ⟨⟩
    exact ⟨by decide +kernel, by decide, by decide⟩

/-- Closing braces and nothing else. -/
def Closing (tokens : List Token) : Prop :=
  ∀ token ∈ tokens, token.kind = .rightBrace

theorem exists_closing_replicate (count : Nat) : ∀ offset, ∃ closing last,
    streamFrom offset (List.replicate count '}') = closing ++ [last] ∧ closing.length = count ∧
      Closing closing ∧ last.kind = .eof := by
  induction count with
  | zero =>
    intro offset
    exact ⟨[], _, streamFrom_blank (List.forall_mem_nil _) offset, rfl, List.forall_mem_nil _, rfl⟩
  | succ count ih =>
    intro offset
    let lexeme := Lexeme.read '}' (List.replicate count '}')
    obtain ⟨closing, last, hrest, hlength, hclosing, hlast⟩ :=
      ih (offset + byteLength [] + byteLength lexeme.covered)
    have hstream : streamFrom offset ('}' :: List.replicate count '}')
        = lexeme.tokenAt (offset + byteLength [])
          :: streamFrom (offset + byteLength [] + byteLength lexeme.covered) lexeme.rest :=
      @streamFrom_lexeme [] _ '}' (List.forall_mem_nil _) (by decide) offset
    refine ⟨_ :: closing, last, hstream.trans (congrArg _ hrest), congrArg Nat.succ hlength, ?_,
      hlast⟩
    exact List.forall_mem_cons.mpr ⟨rfl, hclosing⟩

end Scriptlet.Token
