import Mathlib.Algebra.Group.Nat.Defs
import Mathlib.Data.List.TakeWhile
import Scriptlet.Token.Scan

/-! # Token streams

A text is blank or begins, after blank characters, with a lexeme. Its stream follows these two cases
to the end of the text. Only the last token marks the end of input, the spans ascend, a stream that
starts further on is the same stream shifted, and a text that ends in a semicolon does not run into
a text put behind it.
-/

namespace Scriptlet

/-- The same range `distance` bytes further on. -/
def Span.shift (distance : Nat) (span : Span) : Span :=
  { span with start := span.start + distance.toUInt32 }

theorem Span.ofBounds_add (distance start stop : Nat) :
    ofBounds (distance + start) (distance + stop) = (ofBounds start stop).shift distance := by
  simp only [ofBounds, shift, Nat.add_sub_add_left, Nat.toUInt32_eq, UInt32.ofNat_add]
  rw [UInt32.add_comm]

/-- The first range starts before the second one and ends no later than that starts. -/
def Span.Before (first second : Span) : Prop :=
  first.start.toNat < second.start.toNat ∧ first.stop ≤ second.start.toNat

namespace Token

open Text

namespace Kind

/-- The kinds of lexeme that are not marks of one character. -/
def unmarked : List Kind :=
  [assign, equal, bang, notEqual, string, ident, int, illegal] ++ keywords.map (·.2)

theorem mem_keywords_of_keyword? {word : String} {kind : Kind} (h : keyword? word = some kind) :
    (word, kind) ∈ keywords := by
  obtain ⟨before, after, hkeywords, -⟩ := List.lookup_eq_some_iff.mp h
  rw [hkeywords]
  exact List.mem_append_right _ List.mem_cons_self

theorem ofWord_mem_unmarked (word : String) : ofWord word ∈ unmarked := by
  unfold ofWord
  cases h : keyword? word with
  | none => decide
  | some kind =>
    exact List.mem_append_right _ (List.mem_map.mpr ⟨_, mem_keywords_of_keyword? h, rfl⟩)

theorem ofMark?_eq_semicolon {c : Char} (h : ofMark? c = some semicolon) : c = ';' := by
  unfold ofMark? at h
  split at h <;> first | rfl | cases h

theorem ofMark?_ne_eof (c : Char) : ofMark? c ≠ some eof := by
  unfold ofMark?
  split <;> exact nofun

end Kind

namespace Lexeme

theorem kind_maybeEqual (alone withEqual : Kind) (c : Char) (cs : List Char) :
    (maybeEqual alone withEqual c cs).kind = alone ∨
      (maybeEqual alone withEqual c cs).kind = withEqual := by
  unfold maybeEqual
  split
  · exact Or.inr rfl
  · exact Or.inl rfl

theorem kind_string (cs : List Char) : (string cs).kind = .string := by
  simp only [string]
  split <;> rfl

theorem kind_read (c : Char) (cs : List Char) :
    Kind.ofMark? c = some (read c cs).kind ∨ (read c cs).kind ∈ Kind.unmarked := by
  unfold read
  split
  · next kind hmark => exact Or.inl hmark
  · right
    split
    · rcases kind_maybeEqual .assign .equal c cs with h | h <;> rw [h] <;> decide
    · split
      · rcases kind_maybeEqual .bang .notEqual c cs with h | h <;> rw [h] <;> decide
      · split
        · rw [kind_string]
          decide
        · split
          · exact Kind.ofWord_mem_unmarked _
          · split
            · exact (by decide : Kind.int ∈ Kind.unmarked)
            · exact (by decide : Kind.illegal ∈ Kind.unmarked)

theorem kind_read_ne_eof (c : Char) (cs : List Char) : (read c cs).kind ≠ .eof := by
  intro h
  rcases kind_read c cs with hmark | hword
  · exact Kind.ofMark?_ne_eof c (hmark.trans (congrArg some h))
  · rw [h] at hword
    exact absurd hword (by decide)

theorem eq_semicolon_of_kind_read {c : Char} {cs : List Char} (h : (read c cs).kind = .semicolon) :
    c = ';' := by
  rcases kind_read c cs with hmark | hword
  · exact Kind.ofMark?_eq_semicolon (hmark.trans (congrArg some h))
  · rw [h] at hword
    exact absurd hword (by decide)

/-- The first character decides which lexeme is read. -/
theorem read_cases (c : Char) :
    (∃ kind, c ≠ '"' ∧ ∀ cs, read c cs = plain kind [c] cs) ∨
    (∃ alone withEqual, c ≠ '"' ∧ ∀ cs, read c cs = maybeEqual alone withEqual c cs) ∨
    (c = '"' ∧ ∀ cs, read c cs = string cs) ∨ (∀ cs, read c cs = word (c :: cs)) ∨
    ∀ cs, read c cs = integer (c :: cs) := by
  cases hmark : Kind.ofMark? c with
  | some kind =>
    have hquote : c ≠ '"' := by
      rintro rfl
      cases hmark
    exact Or.inl ⟨kind, hquote, fun cs => by simp only [read, hmark]⟩
  | none =>
    simp only [read, hmark]
    by_cases heq : c = '='
    · exact Or.inr (Or.inl ⟨_, _, by rw [heq]; decide, fun cs => if_pos heq⟩)
    by_cases hbang : c = '!'
    · exact Or.inr (Or.inl ⟨_, _, by rw [hbang]; decide, fun cs => by
        rw [if_neg heq, if_pos hbang]⟩)
    by_cases hquote : c = '"'
    · exact Or.inr (Or.inr (Or.inl ⟨hquote, fun cs => by
        rw [if_neg heq, if_neg hbang, if_pos hquote]⟩))
    simp only [if_neg heq, if_neg hbang, if_neg hquote]
    by_cases hword : isWordChar c = true
    · exact Or.inr (Or.inr (Or.inr (Or.inl fun cs => if_pos hword)))
    by_cases hdigit : c.isDigit = true
    · exact Or.inr (Or.inr (Or.inr (Or.inr fun cs => by rw [if_neg hword, if_pos hdigit])))
    · exact Or.inl ⟨_, hquote, fun cs => by rw [if_neg hword, if_neg hdigit]⟩

/-! ### Lexemes with more text behind them -/

def extend (lexeme : Lexeme) (more : List Char) : Lexeme :=
  { lexeme with rest := lexeme.rest ++ more }

/-- The text does not go on with a lexeme in front of it. -/
def Separate (more : List Char) : Prop :=
  ∀ c ∈ more.head?, isWordChar c = false ∧ c.isDigit = false ∧ c ≠ '='

variable {c : Char} {cs more : List Char}

theorem maybeEqual_append {alone withEqual : Kind} (h : cs = [] → ∀ d ∈ more.head?, d ≠ '=') :
    maybeEqual alone withEqual c (cs ++ more) = (maybeEqual alone withEqual c cs).extend more := by
  cases cs with
  | cons d ds =>
    by_cases hd : d = '='
    · subst hd
      rfl
    · simp [maybeEqual, hd, plain, extend]
  | nil =>
    cases more with
    | nil => rfl
    | cons d ds =>
      have hd : d ≠ '=' := h rfl d rfl
      simp [maybeEqual, hd, plain, extend]

theorem takeWhile_append {p : Char → Bool}
    (h : cs.dropWhile p = [] → ∀ d ∈ more.head?, p d = false) :
    (cs ++ more).takeWhile p = cs.takeWhile p ∧
      (cs ++ more).dropWhile p = cs.dropWhile p ++ more := by
  induction cs with
  | nil =>
    cases more with
    | nil => exact ⟨rfl, rfl⟩
    | cons d ds => simp [h rfl d rfl]
  | cons c cs ih =>
    by_cases hc : p c = true
    · simp only [List.dropWhile_cons, hc, if_true] at h
      simp [hc, ih h]
    · simp [hc]

theorem quote_notMem_takeWhile (cs : List Char) : '"' ∉ cs.takeWhile (· != '"') := by
  intro hmem
  have hne := List.all_eq_true.mp List.all_takeWhile _ hmem
  simp at hne

theorem dropWhile_quote_eq_nil_iff : cs.dropWhile (· != '"') = [] ↔ '"' ∉ cs := by
  simp only [List.dropWhile_eq_nil_iff, bne_iff_ne]
  exact ⟨fun h hmem => h _ hmem rfl, fun h c hc heq => h (heq ▸ hc)⟩

theorem string_append (h : '"' ∈ cs) : string (cs ++ more) = (string cs).extend more := by
  have hquote : cs.dropWhile (· != '"') ≠ [] := fun hnil => dropWhile_quote_eq_nil_iff.mp hnil h
  have hkept : cs.dropWhile (· != '"') = [] → ∀ d ∈ more.head?, (d != '"') = false :=
    fun hnil => absurd hnil hquote
  obtain ⟨htake, hdrop⟩ := takeWhile_append hkept
  obtain ⟨quote, rest, hcons⟩ := List.exists_cons_of_ne_nil hquote
  simp only [string, htake, hdrop, hcons, List.cons_append, extend]

theorem word_append (h : (word cs).rest = [] → ∀ d ∈ more.head?, isWordChar d = false) :
    word (cs ++ more) = (word cs).extend more := by
  obtain ⟨htake, hdrop⟩ := takeWhile_append h
  simp only [word, plain, htake, hdrop, extend]

theorem integer_append (h : (integer cs).rest = [] → ∀ d ∈ more.head?, d.isDigit = false) :
    integer (cs ++ more) = (integer cs).extend more := by
  obtain ⟨htake, hdrop⟩ := takeWhile_append h
  simp only [integer, plain, htake, hdrop, extend]

/-- A lexeme stays the same with more text behind it, unless the text goes on with it. -/
theorem read_append_of_separate (hmore : (read c cs).rest = [] → Separate more)
    (hclosed : c = '"' → '"' ∈ cs) : read c (cs ++ more) = (read c cs).extend more := by
  rcases read_cases c with ⟨kind, -, hread⟩ | ⟨_, _, -, hread⟩ | ⟨hquote, hread⟩ | hread | hread <;>
    rw [hread] at hmore ⊢ <;> rw [hread]
  · rfl
  · refine maybeEqual_append fun hnil d hd => ?_
    subst hnil
    exact (hmore rfl d hd).2.2
  · exact string_append (hclosed hquote)
  · exact word_append fun hnil d hd => (hmore hnil d hd).1
  · exact integer_append fun hnil d hd => (hmore hnil d hd).2.1

/-- A lexeme that leaves text stays the same when more text follows. -/
theorem read_append (more : List Char) (h : (read c cs).rest ≠ []) :
    read c (cs ++ more) = (read c cs).extend more := by
  refine read_append_of_separate (fun hnil => absurd hnil h) ?_
  rintro rfl
  refine Decidable.not_not.mp fun hmem => h ?_
  have hdrop := dropWhile_quote_eq_nil_iff.mpr hmem
  change (string cs).rest = []
  simp only [string, hdrop]

end Lexeme

/-! ### The two cases of a text -/

def Lexeme.tokenAt (lexeme : Lexeme) (start : Nat) : Token :=
  ⟨lexeme.kind, String.ofList lexeme.literal, .ofBounds start (start + byteLength lexeme.covered)⟩

def Blank (cs : List Char) : Prop :=
  ∀ c ∈ cs, isBlank c = true

theorem read_blank {cs : List Char} (h : Blank cs) (offset : Nat) :
    read offset cs = ⟨eofAt (offset + byteLength cs), offset + byteLength cs, []⟩ := by
  have htake : cs.takeWhile isBlank = cs := List.takeWhile_eq_self_iff.mpr h
  have hdrop : cs.dropWhile isBlank = [] := List.dropWhile_eq_nil_iff.mpr h
  simp only [read, htake, hdrop]

theorem read_lexeme {blanks ds : List Char} {c : Char} (hblank : Blank blanks)
    (hc : isBlank c = false) (offset : Nat) :
    read offset (blanks ++ c :: ds)
      = ⟨(Lexeme.read c ds).tokenAt (offset + byteLength blanks),
        offset + byteLength blanks + byteLength (Lexeme.read c ds).covered,
        (Lexeme.read c ds).rest⟩ := by
  have htake : (blanks ++ c :: ds).takeWhile isBlank = blanks := by
    rw [List.takeWhile_append_of_pos hblank, List.takeWhile_cons_of_neg (by simp [hc]),
      List.append_nil]
  have hdrop : (blanks ++ c :: ds).dropWhile isBlank = c :: ds := by
    rw [List.dropWhile_append_of_pos hblank, List.dropWhile_cons_of_neg (by simp [hc])]
  simp only [read, htake, hdrop, Lexeme.tokenAt]

theorem streamFrom_blank {cs : List Char} (h : Blank cs) (offset : Nat) :
    streamFrom offset cs = [eofAt (offset + byteLength cs)] := by
  rw [streamFrom]
  simp only [read_blank h, eofAt, dif_pos]

theorem streamFrom_lexeme {blanks ds : List Char} {c : Char} (hblank : Blank blanks)
    (hc : isBlank c = false) (offset : Nat) :
    streamFrom offset (blanks ++ c :: ds)
      = (Lexeme.read c ds).tokenAt (offset + byteLength blanks)
        :: streamFrom (offset + byteLength blanks + byteLength (Lexeme.read c ds).covered)
          (Lexeme.read c ds).rest := by
  have hkind : ((Lexeme.read c ds).tokenAt (offset + byteLength blanks)).kind ≠ .eof :=
    Lexeme.kind_read_ne_eof c ds
  rw [streamFrom]
  simp only [read_lexeme hblank hc, dif_neg hkind]

theorem blank_or_lexeme (cs : List Char) :
    Blank cs ∨ ∃ blanks c ds, cs = blanks ++ c :: ds ∧ Blank blanks ∧ isBlank c = false := by
  cases hdrop : cs.dropWhile isBlank with
  | nil => exact Or.inl (List.dropWhile_eq_nil_iff.mp hdrop)
  | cons c ds =>
    right
    refine ⟨cs.takeWhile isBlank, c, ds, ?_, ?_, ?_⟩
    · rw [← hdrop, List.takeWhile_append_dropWhile]
    · intro d hd
      exact List.all_eq_true.mp List.all_takeWhile d hd
    · have hhead := List.head?_dropWhile_not isBlank cs
      rw [hdrop] at hhead
      simpa using hhead

/-- What holds of blank texts, and of a text that begins with a lexeme if it holds of what follows
the lexeme, holds of all texts. -/
theorem lexemeInduction {P : List Char → Prop} (blank : ∀ cs, Blank cs → P cs)
    (lexeme : ∀ blanks c ds, Blank blanks → isBlank c = false → P (Lexeme.read c ds).rest →
      P (blanks ++ c :: ds)) (cs : List Char) : P cs := by
  rcases blank_or_lexeme cs with h | ⟨blanks, c, ds, rfl, hblank, hc⟩
  · exact blank cs h
  · have hle := Lexeme.length_rest_read_le c ds
    exact lexeme blanks c ds hblank hc (lexemeInduction blank lexeme _)
termination_by cs.length
decreasing_by
  subst_vars
  simp only [List.length_append, List.length_cons]
  omega

/-! ### The end of input -/

theorem streamFrom_eq_append_eof (cs : List Char) : ∀ offset, ∃ before last,
    streamFrom offset cs = before ++ [last] ∧ last.kind = .eof ∧
      ∀ token ∈ before, token.kind ≠ .eof := by
  induction cs using lexemeInduction with
  | blank cs hblank =>
    intro offset
    exact ⟨[], _, streamFrom_blank hblank offset, rfl, nofun⟩
  | lexeme blanks c ds hblank hc ih =>
    intro offset
    obtain ⟨before, last, hrest, hlast, hbefore⟩ :=
      ih (offset + byteLength blanks + byteLength (Lexeme.read c ds).covered)
    rw [streamFrom_lexeme hblank hc, hrest]
    refine ⟨_ :: before, last, rfl, hlast, ?_⟩
    intro token htoken
    rcases List.mem_cons.mp htoken with rfl | htoken
    · exact Lexeme.kind_read_ne_eof c ds
    · exact hbefore token htoken

/-- The last token of a stream ends the input and none before it does. -/
theorem kind_of_stream_eq {source : String} {before : List Token} {last : Token}
    (h : stream source = before ++ [last]) :
    last.kind = .eof ∧ ∀ token ∈ before, token.kind ≠ .eof := by
  obtain ⟨init, final, hinit, hfinal, hne⟩ := streamFrom_eq_append_eof source.toList 0
  have hsplit : init ++ [final] = before ++ [last] := hinit.symm.trans h
  obtain ⟨rfl, hlast⟩ := List.append_inj' hsplit rfl
  exact ⟨List.singleton_inj.mp hlast ▸ hfinal, hne⟩

theorem eq_nil_of_stream_eq {source : String} {before after : List Token} {token : Token}
    (h : stream source = before ++ token :: after) (heof : token.kind = .eof) : after = [] := by
  rcases List.eq_nil_or_concat after with rfl | ⟨inner, final, rfl⟩
  · rfl
  · rw [List.concat_eq_append, ← List.cons_append, ← List.append_assoc] at h
    have hmem : token ∈ before ++ token :: inner := List.mem_append_right _ List.mem_cons_self
    exact absurd heof ((kind_of_stream_eq h).2 token hmem)

theorem blank_of_streamFrom {cs : List Char} {offset : Nat} {last : Token}
    (h : streamFrom offset cs = [last]) : Blank cs := by
  rcases blank_or_lexeme cs with hblank | ⟨blanks, c, ds, rfl, hblank, hc⟩
  · exact hblank
  · obtain ⟨before, eof, hrest, -⟩ := streamFrom_eq_append_eof (Lexeme.read c ds).rest
      (offset + byteLength blanks + byteLength (Lexeme.read c ds).covered)
    rw [streamFrom_lexeme hblank hc, hrest] at h
    simp at h

/-! ### The places of tokens -/

theorem span_tokenAt (lexeme : Lexeme) (start : Nat)
    (h : start + byteLength lexeme.covered < 2 ^ 32) :
    (lexeme.tokenAt start).span.start.toNat = start ∧
      (lexeme.tokenAt start).span.stop = start + byteLength lexeme.covered :=
  ⟨Span.start_ofBounds (Nat.lt_of_le_of_lt (Nat.le_add_right _ _) h),
    Span.stop_ofBounds (Nat.le_add_right _ _) h⟩

/-- The tokens of a text stand one behind the other, from the offset of the text on. -/
theorem streamFrom_ascending (cs : List Char) : ∀ offset, offset + byteLength cs < 2 ^ 32 →
    (∀ token ∈ streamFrom offset cs, offset ≤ token.span.start.toNat) ∧
      (streamFrom offset cs).Pairwise fun first second => first.span.Before second.span := by
  induction cs using lexemeInduction with
  | blank cs hblank =>
    intro offset hsize
    rw [streamFrom_blank hblank]
    refine ⟨?_, List.pairwise_singleton _ _⟩
    intro token htoken
    rw [List.mem_singleton.mp htoken, eofAt, Span.start_ofBounds hsize]
    exact Nat.le_add_right _ _
  | lexeme blanks c ds hblank hc ih =>
    intro offset hsize
    have hcovered := congrArg byteLength (Lexeme.read_covered_append_rest c ds)
    have hpos := byteLength_pos (Lexeme.read_covered_ne_nil c ds)
    rw [byteLength_append] at hcovered
    rw [byteLength_append, ← hcovered] at hsize
    obtain ⟨hstart, hstop⟩ := span_tokenAt (Lexeme.read c ds) (offset + byteLength blanks)
      (by omega)
    obtain ⟨hfurther, hascending⟩ :=
      ih (offset + byteLength blanks + byteLength (Lexeme.read c ds).covered) (by omega)
    rw [streamFrom_lexeme hblank hc]
    refine ⟨?_, List.pairwise_cons.mpr ⟨?_, hascending⟩⟩
    · intro token htoken
      rcases List.mem_cons.mp htoken with rfl | htoken
      · omega
      · have := hfurther token htoken
        omega
    · intro token htoken
      have := hfurther token htoken
      exact ⟨by omega, by omega⟩

/-! ### Streams that start further on -/

def mapSpan (f : Span → Span) (token : Token) : Token :=
  { token with span := f token.span }

@[simp] theorem kind_mapSpan (f : Span → Span) (token : Token) :
    (token.mapSpan f).kind = token.kind := rfl

def Reading.shift (distance : Nat) (reading : Reading) : Reading :=
  { reading with
    token := reading.token.mapSpan (Span.shift distance)
    next := distance + reading.next }

theorem read_add (distance offset : Nat) (cs : List Char) :
    read (distance + offset) cs = (read offset cs).shift distance := by
  rcases blank_or_lexeme cs with hblank | ⟨blanks, c, ds, rfl, hblank, hc⟩
  · simp only [read_blank hblank, Reading.shift, eofAt, mapSpan, Nat.add_assoc, Span.ofBounds_add]
  · simp only [read_lexeme hblank hc, Reading.shift, Lexeme.tokenAt, mapSpan, Nat.add_assoc,
      Span.ofBounds_add]

theorem streamFrom_add (distance : Nat) (cs : List Char) : ∀ offset,
    streamFrom (distance + offset) cs
      = (streamFrom offset cs).map (mapSpan (Span.shift distance)) := by
  induction cs using lexemeInduction with
  | blank cs hblank =>
    intro offset
    simp only [streamFrom_blank hblank, List.map_cons, List.map_nil, eofAt, mapSpan, Nat.add_assoc,
      Span.ofBounds_add]
  | lexeme blanks c ds hblank hc ih =>
    intro offset
    simp only [streamFrom_lexeme hblank hc, List.map_cons, Nat.add_assoc, ih, Lexeme.tokenAt,
      mapSpan, Span.ofBounds_add]

/-! ### Texts one behind the other -/

/-- Blank characters in front of a text only move its first token. -/
theorem read_append_blank {blanks : List Char} (hblank : Blank blanks) (cs : List Char)
    (offset : Nat) : read offset (blanks ++ cs) = read (offset + byteLength blanks) cs := by
  rcases blank_or_lexeme cs with hcs | ⟨inner, c, ds, rfl, hinner, hc⟩
  · have hall : Blank (blanks ++ cs) := List.forall_mem_append.mpr ⟨hblank, hcs⟩
    rw [read_blank hall, read_blank hcs, byteLength_append, Nat.add_assoc]
  · have hall : Blank (blanks ++ inner) := List.forall_mem_append.mpr ⟨hblank, hinner⟩
    rw [← List.append_assoc, read_lexeme hall hc, read_lexeme hinner hc]
    simp only [byteLength_append, Nat.add_assoc]

theorem streamFrom_append_blank {blanks : List Char} (hblank : Blank blanks) (cs : List Char)
    (offset : Nat) :
    streamFrom offset (blanks ++ cs) = streamFrom (offset + byteLength blanks) cs := by
  rw [streamFrom]
  conv => rhs; rw [streamFrom]
  simp only [read_append_blank hblank]

/-- A text whose last token is a semicolon does not run into the text behind it. -/
theorem streamFrom_append {semicolon eof : Token} (hkind : semicolon.kind = .semicolon)
    (cs : List Char) (more : List Char) : ∀ offset before,
    streamFrom offset cs = before ++ [semicolon, eof] →
      streamFrom offset (cs ++ more)
        = before ++ semicolon :: streamFrom (offset + byteLength cs) more := by
  induction cs using lexemeInduction with
  | blank cs hblank =>
    intro offset before h
    rw [streamFrom_blank hblank] at h
    have hlength := congrArg List.length h
    simp at hlength
  | lexeme blanks c ds hblank hc ih =>
    intro offset before h
    have hcovered := congrArg byteLength (Lexeme.read_covered_append_rest c ds)
    rw [byteLength_append] at hcovered
    rw [streamFrom_lexeme hblank hc] at h
    rw [List.append_assoc, List.cons_append, streamFrom_lexeme hblank hc, byteLength_append,
      ← hcovered]
    cases before with
    | nil =>
      obtain ⟨htoken, hrest⟩ := List.cons.inj h
      have hread : (Lexeme.read c ds).kind = .semicolon :=
        (congrArg Token.kind htoken).trans hkind
      cases Lexeme.eq_semicolon_of_kind_read hread
      have hsame : Lexeme.read ';' (ds ++ more) = (Lexeme.read ';' ds).extend more := rfl
      have hblank : Blank (Lexeme.read ';' ds).rest := blank_of_streamFrom hrest
      simp only [hsame, Lexeme.extend, streamFrom_append_blank hblank, ← htoken, Nat.add_assoc]
      rfl
    | cons first before =>
      obtain ⟨htoken, hrest⟩ := List.cons.inj h
      have hne : (Lexeme.read c ds).rest ≠ [] := by
        intro hnil
        rw [hnil, streamFrom_blank (List.forall_mem_nil _)] at hrest
        have hlength := congrArg List.length hrest
        simp at hlength
      rw [Lexeme.read_append more hne]
      simp only [Lexeme.extend, ih _ _ hrest]
      simp only [← htoken, Nat.add_assoc]
      rfl

theorem stream_append {first : String} (second : String) {before : List Token}
    {semicolon eof : Token} (h : stream first = before ++ [semicolon, eof])
    (hkind : semicolon.kind = .semicolon) :
    stream (first ++ second)
      = before ++ semicolon :: (stream second).map
          (mapSpan (Span.shift (byteLength first.toList))) := by
  rw [stream, String.toList_append, streamFrom_append hkind _ second.toList 0 before h,
    Nat.zero_add, stream, ← streamFrom_add, Nat.add_zero]

end Token

end Scriptlet
