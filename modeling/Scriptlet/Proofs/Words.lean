import Scriptlet.Proofs.Stream

/-! # Words

A word is a token without its place. The text of a word is read as just this word if what follows
does not run into it, and that depends on the kind of the word and on the next character alone.
-/

namespace Scriptlet

open Text

namespace Text

theorem blank_ranges_disjoint : ∀ r ∈ Blank.ranges, ∀ q ∈ Alphabetic.ranges,
    r.2 < q.1 ∨ q.2 < r.1 := by decide +kernel

theorem isAlphabetic_eq_false_of_isBlank {c : Char} (h : isBlank c = true) :
    isAlphabetic c = false := by
  obtain ⟨r, hr, hlow, hhigh⟩ := (isBlank_iff c).mp h
  rw [Bool.eq_false_iff]
  intro halpha
  obtain ⟨q, hq, hlow', hhigh'⟩ := (isAlphabetic_iff c).mp halpha
  rcases blank_ranges_disjoint r hr q hq with hlt | hlt <;> omega

end Text

namespace Token

abbrev Word := Kind × String

def word (token : Token) : Word :=
  (token.kind, token.literal)

/-- The words of a text, with the end of input. -/
def words (cs : List Char) : List Word :=
  (streamFrom 0 cs).map word

theorem map_word_streamFrom (offset : Nat) (cs : List Char) :
    (streamFrom offset cs).map word = words cs := by
  have hadd := streamFrom_add offset cs 0
  rw [Nat.add_zero] at hadd
  rw [hadd, List.map_map]
  rfl

theorem words_of_blank {cs : List Char} (h : Blank cs) : words cs = [(.eof, "")] := by
  rw [words, streamFrom_blank h]
  rfl

theorem words_lexeme {blanks ds : List Char} {c : Char} (hblank : Blank blanks)
    (hc : isBlank c = false) :
    words (blanks ++ c :: ds)
      = ((Lexeme.read c ds).kind, String.ofList (Lexeme.read c ds).literal)
        :: words (Lexeme.read c ds).rest := by
  rw [words, streamFrom_lexeme hblank hc, List.map_cons, map_word_streamFrom]
  rfl

theorem words_cons_blank {c : Char} (hc : isBlank c = true) (cs : List Char) :
    words (c :: cs) = words cs := by
  have hblank : Blank [c] := fun d hd => List.mem_singleton.mp hd ▸ hc
  rw [words, ← List.singleton_append, streamFrom_append_blank hblank, map_word_streamFrom]

namespace Kind

/-- The text of a kind that is always written the same way. -/
def text? : Kind → Option String
  | assign => some "="
  | plus => some "+"
  | minus => some "-"
  | bang => some "!"
  | star => some "*"
  | slash => some "/"
  | less => some "<"
  | greater => some ">"
  | equal => some "=="
  | notEqual => some "!="
  | comma => some ","
  | semicolon => some ";"
  | colon => some ":"
  | leftParen => some "("
  | rightParen => some ")"
  | leftBracket => some "["
  | rightBracket => some "]"
  | leftBrace => some "\x7b"
  | rightBrace => some "\x7d"
  | fnWord => some "fn"
  | letWord => some "let"
  | trueWord => some "true"
  | falseWord => some "false"
  | ifWord => some "if"
  | elseWord => some "else"
  | returnWord => some "return"
  | illegal | eof | ident | int | string => none

/-- Whether a lexeme of this kind ends in front of the character. -/
def endsBefore (kind : Kind) (c : Char) : Bool :=
  match kind with
  | assign | bang => c != '='
  | ident | fnWord | letWord | trueWord | falseWord | ifWord | elseWord | returnWord =>
    !Lexeme.isWordChar c
  | int => !c.isDigit
  | _ => true

end Kind

/-- The character starts no other kind of lexeme and separates none. -/
def IsIllegal (c : Char) : Prop :=
  isBlank c = false ∧ Kind.ofMark? c = none ∧ c ∉ ['=', '!', '"'] ∧
    Lexeme.isWordChar c = false ∧ c.isDigit = false

namespace Word

/-- Words that a lexeme can have. -/
def Proper : Word → Prop
  | (.eof, _) => False
  | (.illegal, literal) => ∃ c, literal.toList = [c] ∧ IsIllegal c
  | (.ident, literal) => literal.toList ≠ [] ∧
    (∀ c ∈ literal.toList, Lexeme.isWordChar c = true) ∧ Kind.keyword? literal = none
  | (.int, literal) => literal.toList ≠ [] ∧ ∀ c ∈ literal.toList, c.isDigit = true
  | (.string, literal) => '"' ∉ literal.toList
  | (kind, literal) => kind.text? = some literal

/-- The text of a word. A string has its quotes. -/
def chars : Word → List Char
  | (.string, literal) => '"' :: (literal.toList ++ ['"'])
  | (_, literal) => literal.toList

/-- The text behind the word does not run into it. -/
def Apart (word : Word) (rest : List Char) : Prop :=
  ∀ c ∈ rest.head?, word.1.endsBefore c = true

end Word

/-! ### Classes of characters -/

theorem classes_of_isWordChar {c : Char} (h : Lexeme.isWordChar c = true) :
    isBlank c = false ∧ Kind.ofMark? c = none ∧ c ∉ ['=', '!', '"'] := by
  refine ⟨?_, ?_, ?_⟩
  · rw [Bool.eq_false_iff]
    intro hblank
    simp only [Lexeme.isWordChar, isAlphabetic_eq_false_of_isBlank hblank, Bool.false_or,
      beq_iff_eq] at h
    subst h
    exact absurd hblank (by decide)
  · unfold Kind.ofMark?
    split <;> first | rfl | exact absurd h (by decide +kernel)
  · have hnone : ['=', '!', '"'].any Lexeme.isWordChar = false := by decide +kernel
    exact fun hmem => List.any_eq_false.mp hnone c hmem h

theorem alphabetic_ranges_disjoint : ∀ r ∈ Alphabetic.ranges, 57 < r.1 ∨ r.2 < 48 := by
  decide +kernel

theorem classes_of_isDigit {c : Char} (h : c.isDigit = true) :
    isBlank c = false ∧ Kind.ofMark? c = none ∧ c ∉ ['=', '!', '"'] ∧
      Lexeme.isWordChar c = false := by
  have hbounds : 48 ≤ c.toNat ∧ c.toNat ≤ 57 := by
    simpa [Char.isDigit, UInt32.le_iff_toNat_le] using h
  refine ⟨?_, ?_, ?_, ?_⟩
  · rw [Bool.eq_false_iff]
    intro hblank
    obtain ⟨r, hr, hlow, hhigh⟩ := (isBlank_iff c).mp hblank
    have hdisjoint : ∀ r ∈ Blank.ranges, 57 < r.1 ∨ r.2 < 48 := by decide
    rcases hdisjoint r hr with hlt | hlt <;> omega
  · unfold Kind.ofMark?
    split <;> first | rfl | exact absurd h (by decide)
  · have hnone : ['=', '!', '"'].any Char.isDigit = false := by decide
    exact fun hmem => List.any_eq_false.mp hnone c hmem h
  · rw [Bool.eq_false_iff]
    intro hword
    simp only [Lexeme.isWordChar, Bool.or_eq_true, beq_iff_eq] at hword
    rcases hword with halpha | rfl
    · obtain ⟨r, hr, hlow, hhigh⟩ := (isAlphabetic_iff c).mp halpha
      rcases alphabetic_ranges_disjoint r hr with hlt | hlt <;> omega
    · exact absurd h (by decide)

theorem isBlank_eq_false_of_mark {c : Char} {kind : Kind} (h : Kind.ofMark? c = some kind) :
    isBlank c = false := by
  unfold Kind.ofMark? at h
  split at h <;> first | decide | cases h

/-! ### The word at the front of a text -/

theorem words_cons {c : Char} (hc : isBlank c = false) (cs : List Char) :
    words (c :: cs)
      = ((Lexeme.read c cs).kind, String.ofList (Lexeme.read c cs).literal)
        :: words (Lexeme.read c cs).rest :=
  words_lexeme (show Blank [] from List.forall_mem_nil _) hc

theorem words_mark {c : Char} {kind : Kind} (h : Kind.ofMark? c = some kind) (cs : List Char) :
    words (c :: cs) = (kind, String.singleton c) :: words cs := by
  rw [words_cons (isBlank_eq_false_of_mark h)]
  simp only [Lexeme.read, h]
  rfl

theorem takeWhile_append_of_head? {p : Char → Bool} {cs rest : List Char}
    (hcs : ∀ c ∈ cs, p c = true) (hrest : ∀ c ∈ rest.head?, p c = false) :
    (cs ++ rest).takeWhile p = cs ∧ (cs ++ rest).dropWhile p = rest := by
  rw [List.takeWhile_append_of_pos hcs, List.dropWhile_append_of_pos hcs]
  cases rest with
  | nil => simp
  | cons c rest => simp [hrest c rfl]

theorem words_letters {cs rest : List Char} (hne : cs ≠ [])
    (hcs : ∀ c ∈ cs, Lexeme.isWordChar c = true)
    (hrest : ∀ c ∈ rest.head?, Lexeme.isWordChar c = false) :
    words (cs ++ rest) = (Kind.ofWord (String.ofList cs), String.ofList cs) :: words rest := by
  obtain ⟨htake, hdrop⟩ := takeWhile_append_of_head? hcs hrest
  obtain ⟨c, ds, rfl⟩ := List.exists_cons_of_ne_nil hne
  have hword := hcs c List.mem_cons_self
  obtain ⟨hblank, hmark, hother⟩ := classes_of_isWordChar hword
  simp only [List.mem_cons, List.not_mem_nil, or_false, not_or] at hother
  have hread : Lexeme.read c (ds ++ rest) = Lexeme.word (c :: ds ++ rest) := by
    simp only [Lexeme.read, hmark, hother, hword, if_true, if_false, List.cons_append]
  rw [List.cons_append, words_cons hblank, hread]
  simp only [Lexeme.word, Lexeme.plain, htake, hdrop]

theorem words_digits {cs rest : List Char} (hne : cs ≠ []) (hcs : ∀ c ∈ cs, c.isDigit = true)
    (hrest : ∀ c ∈ rest.head?, c.isDigit = false) :
    words (cs ++ rest) = (.int, String.ofList cs) :: words rest := by
  obtain ⟨htake, hdrop⟩ := takeWhile_append_of_head? hcs hrest
  obtain ⟨c, ds, rfl⟩ := List.exists_cons_of_ne_nil hne
  have hdigit := hcs c List.mem_cons_self
  obtain ⟨hblank, hmark, hother, hword⟩ := classes_of_isDigit hdigit
  simp only [List.mem_cons, List.not_mem_nil, or_false, not_or] at hother
  have hread : Lexeme.read c (ds ++ rest) = Lexeme.integer (c :: ds ++ rest) := by
    simp only [Lexeme.read, hmark, hother, hword, hdigit, if_true, if_false, List.cons_append,
      Bool.false_eq_true]
  rw [List.cons_append, words_cons hblank, hread]
  simp only [Lexeme.integer, Lexeme.plain, htake, hdrop]

theorem words_string {cs : List Char} (hcs : '"' ∉ cs) (rest : List Char) :
    words ('"' :: (cs ++ '"' :: rest)) = (.string, String.ofList cs) :: words rest := by
  have hinner : ∀ c ∈ cs, (c != '"') = true := by
    intro c hc
    rw [bne_iff_ne]
    rintro rfl
    exact hcs hc
  have hquote : ∀ c ∈ ('"' :: rest).head?, (c != '"') = false := by simp
  obtain ⟨htake, hdrop⟩ := takeWhile_append_of_head? hinner hquote
  have hread : Lexeme.read '"' (cs ++ '"' :: rest) = Lexeme.string (cs ++ '"' :: rest) := rfl
  rw [words_cons (by decide), hread]
  simp only [Lexeme.string, htake, hdrop]

theorem words_maybeEqual {c : Char} {alone withEqual : Kind} (hblank : isBlank c = false)
    (hread : ∀ cs, Lexeme.read c cs = Lexeme.maybeEqual alone withEqual c cs) {rest : List Char}
    (hrest : ∀ d ∈ rest.head?, d ≠ '=') :
    words (c :: rest) = (alone, String.singleton c) :: words rest := by
  rw [words_cons hblank, hread]
  unfold Lexeme.maybeEqual
  split
  · exact absurd rfl (hrest '=' rfl)
  · rfl

theorem words_illegal {c : Char} (hc : IsIllegal c) (rest : List Char) :
    words (c :: rest) = (.illegal, String.singleton c) :: words rest := by
  obtain ⟨hblank, hmark, hother, hword, hdigit⟩ := hc
  simp only [List.mem_cons, List.not_mem_nil, or_false, not_or] at hother
  rw [words_cons hblank]
  simp only [Lexeme.read, hmark, hother, hword, hdigit, if_false, Bool.false_eq_true]
  rfl

/-- A word with text behind it that it does not run into is the first word of the text. -/
theorem words_append {word : Word} (hword : word.Proper) {rest : List Char}
    (hrest : word.Apart rest) : words (word.chars ++ rest) = word :: words rest := by
  obtain ⟨kind, literal⟩ := word
  cases kind
  case eof => exact hword.elim
  case illegal =>
    obtain ⟨c, hliteral, hc⟩ := hword
    have hsame : literal = String.singleton c := by
      rw [← String.toList_inj, hliteral, String.toList_singleton]
    simp only [Word.chars, hliteral]
    rw [hsame]
    exact words_illegal hc rest
  case ident =>
    obtain ⟨hne, hall, hkeyword⟩ := hword
    have hapart : ∀ c ∈ rest.head?, Lexeme.isWordChar c = false := fun c hc => by
      simpa [Kind.endsBefore] using hrest c hc
    have h := words_letters hne hall hapart
    simpa [Word.chars, Kind.ofWord, hkeyword] using h
  case int =>
    obtain ⟨hne, hall⟩ := hword
    have hapart : ∀ c ∈ rest.head?, c.isDigit = false := fun c hc => by
      simpa [Kind.endsBefore] using hrest c hc
    have h := words_digits hne hall hapart
    simpa [Word.chars] using h
  case string =>
    have h := words_string hword rest
    simpa [Word.chars] using h
  case assign | bang =>
    cases hword
    refine words_maybeEqual (by decide) (fun _ => rfl) fun c hc => ?_
    simpa [Kind.endsBefore] using hrest c hc
  case equal | notEqual =>
    cases hword
    exact words_cons (by decide) _
  case fnWord | letWord | trueWord | falseWord | ifWord | elseWord | returnWord =>
    cases hword
    refine words_letters (by decide) (List.all_eq_true.mp (by decide +kernel)) fun c hc => ?_
    simpa [Kind.endsBefore] using hrest c hc
  all_goals
    cases hword
    exact words_mark rfl rest

/-! ### The words of a stream -/

namespace Kind

theorem text?_of_keyword? {text : String} {kind : Kind} (h : keyword? text = some kind) :
    kind.text? = some text := by
  have hall : ∀ entry ∈ keywords, entry.2.text? = some entry.1 := by decide
  exact hall _ (mem_keywords_of_keyword? h)

theorem proper_ofMark? {c : Char} {kind : Kind} (h : ofMark? c = some kind) :
    Word.Proper (kind, String.singleton c) := by
  unfold ofMark? at h
  split at h <;> cases h <;> exact rfl

end Kind

namespace Lexeme

theorem proper_word {cs : List Char} (hne : cs.takeWhile isWordChar ≠ []) :
    Word.Proper ((word cs).kind, String.ofList (word cs).literal) := by
  simp only [word, plain, Kind.ofWord]
  cases hkeyword : Kind.keyword? (String.ofList (cs.takeWhile isWordChar)) with
  | none =>
    refine ⟨by simpa using hne, ?_, hkeyword⟩
    intro c hc
    rw [String.toList_ofList] at hc
    exact List.all_eq_true.mp List.all_takeWhile c hc
  | some kind =>
    have htext := Kind.text?_of_keyword? hkeyword
    cases kind <;> first | exact htext | cases htext

theorem proper_read {c : Char} (hc : isBlank c = false) (cs : List Char) :
    Word.Proper ((read c cs).kind, String.ofList (read c cs).literal) := by
  cases hmark : Kind.ofMark? c with
  | some kind =>
    simp only [read, hmark]
    exact Kind.proper_ofMark? hmark
  | none =>
    simp only [read, hmark]
    by_cases heq : c = '='
    · subst heq
      simp only [if_true, maybeEqual]
      split <;> exact rfl
    by_cases hbang : c = '!'
    · subst hbang
      simp only [if_neg heq, if_true, maybeEqual]
      split <;> exact rfl
    by_cases hquote : c = '"'
    · subst hquote
      simp only [if_neg heq, if_neg hbang, if_true]
      have hbody := quote_notMem_takeWhile cs
      unfold string
      split <;> simpa only [Word.Proper, String.toList_ofList] using hbody
    simp only [if_neg heq, if_neg hbang, if_neg hquote]
    by_cases hword : isWordChar c = true
    · simp only [if_pos hword]
      exact proper_word (by simp [hword])
    simp only [if_neg hword]
    by_cases hdigit : c.isDigit = true
    · simp only [if_pos hdigit, integer, plain]
      refine ⟨by simp [hdigit], ?_⟩
      intro d hd
      rw [String.toList_ofList] at hd
      exact List.all_eq_true.mp List.all_takeWhile d hd
    · simp only [if_neg hdigit, plain]
      refine ⟨c, String.toList_ofList, hc, hmark, ?_, by simpa using hword, by simpa using hdigit⟩
      simp [heq, hbang, hquote]

end Lexeme

theorem proper_of_mem_stream {source : String} {token : Token} (h : token ∈ stream source) :
    token.kind = .eof ∨ token.word.Proper := by
  suffices hall : ∀ cs offset, ∀ token ∈ streamFrom offset cs,
      token.kind = .eof ∨ token.word.Proper from hall source.toList 0 token h
  intro cs
  induction cs using lexemeInduction with
  | blank cs hblank =>
    intro offset token htoken
    rw [streamFrom_blank hblank] at htoken
    exact Or.inl (List.mem_singleton.mp htoken ▸ rfl)
  | lexeme blanks c ds hblank hc ih =>
    intro offset token htoken
    rw [streamFrom_lexeme hblank hc] at htoken
    rcases List.mem_cons.mp htoken with rfl | htoken
    · exact Or.inr (Lexeme.proper_read hc ds)
    · exact ih _ token htoken

end Token

end Scriptlet
