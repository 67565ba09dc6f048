import Scriptlet.Proofs.Blamed
import Scriptlet.Proofs.Lines
import Scriptlet.Report.Explained
import Scriptlet.Report.Plain

/-! # Two reports on one error

An error is reported on one line after the number of its line, or in a frame that names the line in
its header. The one counts line feeds in front of the error, the other shows rows, which end at
terminators of any kind and of which none follows the last terminator. The two numbers differ by
what this comes to, and by nothing else.
-/

namespace Scriptlet

namespace Text

/-! ### Rows in front of a place -/

/-- The number of line ends that are neither a line feed nor a carriage return with a line feed. -/
def otherEnds : List Char → Nat
  | [] => 0
  | '\r' :: '\n' :: rest => otherEnds rest
  | c :: rest => (if isTerminator c ∧ c ≠ '\n' then 1 else 0) + otherEnds rest

/-- Nothing follows, not even the rest of a row. -/
def closes (before after : List Char) : Bool :=
  after.isEmpty && before.getLast?.all isTerminator

theorem pieces_cons {c : Char} {rest : List Char} (h : c = '\r' → rest.head? ≠ some '\n') :
    pieces (c :: rest) = if isTerminator c then [c] :: pieces rest
      else match pieces rest with
        | [] => [[c]]
        | piece :: others => (c :: piece) :: others := by
  have hpair : ∀ more, c = '\r' → rest = '\n' :: more → False := by
    rintro more rfl rfl
    exact h rfl rfl
  exact pieces.eq_3 c rest hpair

theorem exists_pieces_cons (c : Char) (rest : List Char) :
    ∃ first others, pieces (c :: rest) = (c :: first) :: others := by
  unfold pieces
  split
  · next heq => cases heq
  · next heq =>
    cases heq
    exact ⟨_, _, rfl⟩
  · next heq =>
    cases heq
    split
    · exact ⟨_, _, rfl⟩
    · split <;> exact ⟨_, _, rfl⟩

theorem closes_cons {c : Char} {before after : List Char}
    (h : before = [] → after = [] → isTerminator c = true) :
    closes (c :: before) after = closes before after := by
  cases before with
  | cons d before => rw [closes, closes, List.getLast?_cons_cons]
  | nil =>
    cases after with
    | nil => simp [closes, h rfl rfl]
    | cons d after => rfl

/-- The rows that start at or before a place. -/
def startsBy (position : Nat) (rows : List Row) : Nat :=
  (rows.takeWhile (·.offset ≤ position)).length

theorem startsBy_rowsFrom_nil (offset position : Nat) :
    startsBy position (rowsFrom offset []) = 0 :=
  rfl

theorem startsBy_rowsFrom_cons {offset position : Nat} (h : offset ≤ position) (first : List Char)
    (others : List (List Char)) :
    startsBy position (rowsFrom offset (first :: others))
      = startsBy position (rowsFrom (offset + first.length) others) + 1 := by
  rw [rowsFrom, startsBy, List.takeWhile_cons_of_pos (by simpa using h), List.length_cons,
    startsBy]

theorem count_cons_add_other (c : Char) (rest : List Char) :
    (c :: rest).count '\n' + (if isTerminator c ∧ c ≠ '\n' then 1 else 0)
      = rest.count '\n' + (if isTerminator c then 1 else 0) := by
  by_cases hc : c = '\n'
  · subst hc
    rw [List.count_cons_self, if_neg (by simp), if_pos (by decide)]
  · rw [List.count_cons_of_ne hc]
    simp only [hc, ne_eq, not_false_eq_true, and_true]

theorem startsBy_pieces (before : List Char) {after : List Char} (h : after.head? ≠ some '\n')
    (offset : Nat) :
    startsBy (offset + before.length) (rowsFrom offset (pieces (before ++ after)))
        + (if closes before after then 1 else 0)
      = before.count '\n' + otherEnds before + 1 := by
  fun_induction otherEnds before generalizing offset with
  | case1 =>
    cases after with
    | nil => rfl
    | cons c rest =>
      obtain ⟨first, others, hpieces⟩ := exists_pieces_cons c rest
      rw [List.nil_append, hpieces, List.length_nil, Nat.add_zero,
        startsBy_rowsFrom_cons (Nat.le_refl _)]
      cases others with
      | nil => rfl
      | cons second others =>
        rw [rowsFrom, startsBy, List.takeWhile_cons_of_neg (by simp)]
        rfl
  | case2 rest ih =>
    have hpieces : pieces ('\r' :: '\n' :: rest ++ after)
        = ['\r', '\n'] :: pieces (rest ++ after) := by
      rw [List.cons_append, List.cons_append, pieces]
    have hposition : offset + ('\r' :: '\n' :: rest).length = offset + 2 + rest.length := by
      simp only [List.length_cons]
      omega
    have hcloses : closes ('\r' :: '\n' :: rest) after = closes rest after :=
      (closes_cons fun _ _ => by decide).trans (closes_cons fun _ _ => by decide)
    have hlength : ['\r', '\n'].length = 2 := rfl
    have ih := ih (offset + 2)
    rw [hpieces, hposition, startsBy_rowsFrom_cons (by omega), hcloses, hlength,
      List.count_cons_of_ne (by decide), List.count_cons_self]
    omega
  | case3 c rest hne ih =>
    have hhead : c = '\r' → (rest ++ after).head? ≠ some '\n' := by
      rintro rfl hhead
      cases rest with
      | nil => exact h hhead
      | cons d rest => exact hne rest rfl (by rw [Option.some.inj hhead])
    have hposition : offset + (c :: rest).length = offset + 1 + rest.length := by
      rw [List.length_cons]
      omega
    have hends := count_cons_add_other c rest
    have ih := ih (offset + 1)
    rw [List.cons_append, pieces_cons hhead, hposition]
    by_cases hterm : isTerminator c = true
    · rw [if_pos hterm] at hends ⊢
      rw [startsBy_rowsFrom_cons (by omega), closes_cons fun _ _ => hterm, List.length_singleton]
      omega
    · rw [if_neg hterm] at hends ⊢
      cases hpieces : pieces (rest ++ after) with
      | nil =>
        -- The text ends with this character, in a row that no terminator ends.
        have hnil : rest ++ after = [] := by rw [← flatten_pieces (rest ++ after), hpieces]; rfl
        obtain ⟨rfl, rfl⟩ := List.append_eq_nil_iff.mp hnil
        have hcloses : closes [c] [] = false := Bool.eq_false_iff.mpr hterm
        have hother : otherEnds [] = 0 := rfl
        dsimp only
        rw [startsBy_rowsFrom_cons (by omega), startsBy_rowsFrom_nil, hcloses, hother,
          if_neg Bool.false_ne_true]
        rw [List.count_nil] at hends
        omega
      | cons piece others =>
        have hcloses : closes (c :: rest) after = closes rest after := by
          refine closes_cons fun hrest hafter => ?_
          rw [hrest, hafter] at hpieces
          cases hpieces
        rw [hpieces, startsBy_rowsFrom_cons (by omega)] at ih
        dsimp only
        rw [startsBy_rowsFrom_cons (by omega), hcloses, List.length_cons,
          Nat.add_comm piece.length 1, ← Nat.add_assoc offset]
        omega

def endsWithTerminator (cs : List Char) : Bool :=
  cs.getLast?.any isTerminator

theorem rows_ne_nil (cs : List Char) : rows cs ≠ [] := by
  rw [rows]
  cases cs with
  | nil => exact List.cons_ne_nil _ _
  | cons c rest =>
    obtain ⟨first, others, hpieces⟩ := exists_pieces_cons c rest
    rw [List.isEmpty_cons, if_neg Bool.false_ne_true, hpieces]
    exact List.cons_ne_nil _ _

theorem rowOf_lt {rows : List Row} (h : rows ≠ []) (position : Nat) :
    rowOf rows position < rows.length := by
  have hle := (List.takeWhile_sublist (l := rows) (·.offset ≤ position)).length_le
  have hpos := List.length_pos_iff.mpr h
  rw [rowOf]
  omega

/-- The row of a place, counted from one, by the line ends in front of it. No row begins behind a
terminator at the end of the text. -/
theorem rowOf_rows (before : List Char) {after : List Char} (h : after.head? ≠ some '\n') :
    rowOf (rows (before ++ after)) before.length + 1
        + (if after.isEmpty && endsWithTerminator before then 1 else 0)
      = 1 + before.count '\n' + otherEnds before := by
  cases hwhole : before ++ after with
  | nil =>
    obtain ⟨rfl, rfl⟩ := List.append_eq_nil_iff.mp hwhole
    rfl
  | cons c rest =>
    obtain ⟨first, others, hpieces⟩ := exists_pieces_cons c rest
    have hrows : rows (c :: rest) = rowsFrom 0 (pieces (c :: rest)) := rfl
    have hcloses : (after.isEmpty && endsWithTerminator before) = closes before after := by
      cases before with
      | cons d before => rw [endsWithTerminator, closes, List.getLast?_cons]; rfl
      | nil =>
        cases after with
        | nil => cases hwhole
        | cons d after => rfl
    have hstarts := startsBy_pieces before h 0
    rw [hwhole, hpieces, Nat.zero_add, startsBy_rowsFrom_cons (Nat.zero_le _), ← hcloses] at hstarts
    have hrow : rowOf (rows (c :: rest)) before.length
        = startsBy before.length (rowsFrom (0 + (c :: first).length) others) := by
      have hfirst := startsBy_rowsFrom_cons (Nat.zero_le before.length) (c :: first) others
      rw [hrows, hpieces, rowOf, ← startsBy, hfirst, Nat.add_sub_cancel]
    omega

end Text

namespace Report.Framed

open Text

def heading (report : Framed) : String :=
  Style.heading.paint ("[" ++ report.code ++ "] Error:") ++ " " ++ report.message

/-- The row that begins the frame. -/
def header (width : Nat) (path place : String) : String :=
  spaces (width + 2) ++ Style.margin.paint "╭" ++ Style.margin.paint "─" ++ Style.margin.paint "["
    ++ " " ++ path ++ ":" ++ place ++ " " ++ Style.margin.paint "]"

/-- The report has a header, which names the line of the source. -/
def Names (report : Framed) (path source : String) (line : Nat) : Prop :=
  ∃ (width column : Nat) (rest : String), report.render path source
    = report.heading ++ "\n" ++ header width path (toString line ++ ":" ++ toString column) ++ "\n"
      ++ rest

theorem position_of_le {rows : List Row} (h : rows ≠ []) {size place : Nat} (hle : place ≤ size) :
    ∃ column : Nat, position rows size place
      = toString (rowOf rows place + 1) ++ ":" ++ toString column := by
  rw [position, List.getElem?_eq_getElem (rowOf_lt h place)]
  dsimp only
  rw [if_pos hle]
  exact ⟨_, rfl⟩

theorem exists_frame_eq (path : String) (rows : List Row) (size place : Nat)
    (labels : List Label) :
    ∃ width others, frame path rows size place labels
      = header width path (position rows size place) :: others :=
  ⟨_, _, rfl⟩

theorem names_of_fits {report : Framed} {label : Label} (hlabels : report.labels = [label])
    {source : String} (hfits : label.fits source.toList.length = true)
    (hplace : report.place ≤ source.toList.length) (path : String) :
    report.Names path source (rowOf (rows source.toList) report.place + 1) := by
  obtain ⟨column, hposition⟩ := position_of_le (rows_ne_nil source.toList) hplace
  have hfilter : report.labels.filter (·.fits source.toList.length) = [label] := by
    rw [hlabels, List.filter_singleton, hfits, cond_true]
  obtain ⟨width, others, hframe⟩ := exists_frame_eq path (rows source.toList)
    source.toList.length report.place [label]
  refine ⟨width, column, String.join (others.map (· ++ "\n")), ?_⟩
  unfold render
  dsimp only
  rw [hfilter, List.isEmpty_cons, if_neg Bool.false_ne_true, hframe, hposition, ← heading]
  simp only [List.map_cons, String.join_cons, String.append_assoc]

/-- Characters of a kind and what stands behind them are determined if no more of them follow. -/
theorem eq_of_append_eq {p : Char → Bool} {cs cs' rest rest' : List Char}
    (h : cs ++ rest = cs' ++ rest') (hcs : ∀ c ∈ cs, p c = true) (hcs' : ∀ c ∈ cs', p c = true)
    (hrest : ∀ c ∈ rest.head?, p c = false) (hrest' : ∀ c ∈ rest'.head?, p c = false) :
    cs = cs' ∧ rest = rest' := by
  obtain ⟨htake, hdrop⟩ := Token.takeWhile_append_of_head? hcs hrest
  obtain ⟨htake', hdrop'⟩ := Token.takeWhile_append_of_head? hcs' hrest'
  exact ⟨htake.symm.trans (h ▸ htake'), hdrop.symm.trans (h ▸ hdrop')⟩

theorem isDigit_of_mem_toString {n : Nat} : ∀ c ∈ (toString n).toList, c.isDigit = true := by
  intro c hc
  have htext : (toString n).toList = Nat.toDigits 10 n := Nat.toList_repr
  exact Nat.isDigit_of_mem_toDigits (by decide) (by decide) (htext ▸ hc)

theorem toString_injective {m n : Nat} (h : (toString m).toList = (toString n).toList) : m = n := by
  have hm : (toString m).toList = Nat.toDigits 10 m := Nat.toList_repr
  have hn : (toString n).toList = Nat.toDigits 10 n := Nat.toList_repr
  have hread := congrArg (Nat.ofDigitChars 10 · 0) (hm.symm.trans (h.trans hn))
  rwa [Nat.ofDigitChars_ten_toDigits, Nat.ofDigitChars_ten_toDigits] at hread

/-- A header names one line only. -/
theorem Names.unique {report : Framed} {path source : String} {line line' : Nat}
    (h : report.Names path source line) (h' : report.Names path source line') : line = line' := by
  obtain ⟨width, column, rest, h⟩ := h
  obtain ⟨width', column', rest', h'⟩ := h'
  have heq := congrArg String.toList (h.symm.trans h')
  simp only [header, spaces, String.toList_append, String.toList_ofList, List.append_assoc,
    List.append_cancel_left_eq] at heq
  have hspace (n : Nat) : ∀ c ∈ List.replicate n ' ', (c == ' ') = true := fun c hc => by
    rw [List.eq_of_mem_replicate hc]
    rfl
  have hcorner : ∀ rest : List Char, ∀ c ∈ ((Style.margin.paint "╭").toList ++ rest).head?,
      (c == ' ') = false := by
    rintro rest c hc
    cases hc
    rfl
  have hcolon : ∀ rest : List Char, ∀ c ∈ (":".toList ++ rest).head?, c.isDigit = false := by
    rintro rest c hc
    cases hc
    rfl
  obtain ⟨-, heq⟩ := eq_of_append_eq heq (hspace _) (hspace _) (hcorner _) (hcorner _)
  simp only [List.append_cancel_left_eq] at heq
  exact toString_injective (eq_of_append_eq heq isDigit_of_mem_toString isDigit_of_mem_toString
    (hcolon _) (hcolon _)).1

end Report.Framed

open Text

namespace Token

theorem Word.Proper.head?_not_blank {word : Word} (h : word.Proper) (hkind : word.1 ≠ .string) :
    ∀ c ∈ word.2.toList.head?, isBlank c = false := by
  intro c hc
  have hmem : c ∈ word.2.toList := List.mem_of_mem_head? hc
  obtain ⟨kind, literal⟩ := word
  have htext {text : String} (hfixed : some text = some literal)
      (hnone : text.toList.any isBlank = false) : isBlank c = false := by
    cases hfixed
    exact Bool.eq_false_iff.mpr (List.any_eq_false.mp hnone c hmem)
  cases kind with
  | eof => exact h.elim
  | illegal =>
    obtain ⟨d, hliteral, hillegal⟩ := h
    rw [hliteral] at hmem
    cases List.mem_singleton.mp hmem
    exact hillegal.1
  | ident => exact (classes_of_isWordChar (h.2.1 c hmem)).1
  | int => exact (classes_of_isDigit (h.2 c hmem)).1
  | string => exact absurd rfl hkind
  | _ => exact htext h (by decide)

/-- A token is cut out of the source where no line feed begins. -/
theorem exists_split_of_mem {source : String} (hsize : byteLength source.toList < 2 ^ 32)
    {token : Token} (h : token ∈ stream source) :
    ∃ before piece after, source.toList = before ++ (piece ++ after) ∧
      byteLength before = token.span.start.toNat ∧
      token.span.start.toNat + byteLength piece = token.span.stop ∧
      (piece ++ after).head? ≠ some '\n' := by
  have htiling := tiling_stream hsize
  obtain ⟨others, hstream, hothers⟩ := htiling.ends
  by_cases heof : token.kind = .eof
  · obtain rfl : token = eofAt (byteLength source.toList) := by
      rw [hstream] at h
      rcases List.mem_append.mp h with h | h
      · exact absurd heof (hothers token h)
      · exact List.mem_singleton.mp h
    exact ⟨source.toList, [], [], by simp, htiling.eof.1.symm,
      htiling.eof.1.trans htiling.eof.2.symm, nofun⟩
  · obtain ⟨piece, ⟨before, after, hsource, hstart, hstop⟩, hwritten, hne⟩ :=
      htiling.covers token h
    refine ⟨before, piece, after, hsource, hstart, hstop, ?_⟩
    obtain ⟨c, rest, rfl⟩ := List.exists_cons_of_ne_nil (hne heof)
    rintro hhead
    obtain rfl : c = '\n' := Option.some.inj hhead
    rw [Kind.Written] at hwritten
    split at hwritten
    · rcases hwritten.2 with hpiece | ⟨hpiece, -⟩ <;> cases hpiece
    · next hkind =>
      have hproper := (proper_of_mem_stream h).resolve_left heof
      have hblank := hproper.head?_not_blank hkind '\n' (by rw [Token.word, ← hwritten]; rfl)
      exact absurd hblank (by decide)

end Token

namespace Grammar.Error

variable {path source : String} {error : Error} {before piece after : List Char}

/-- Every character has a byte of its own. -/
def Narrow (cs : List Char) : Prop :=
  ∀ c ∈ cs, c.utf8Size = 1

theorem Narrow.byteLength_eq {cs : List Char} (h : Narrow cs) : byteLength cs = cs.length := by
  induction cs with
  | nil => rfl
  | cons c cs ih =>
    obtain ⟨hc, hcs⟩ := List.forall_mem_cons.mp h
    rw [byteLength_cons, List.length_cons, hc, ih hcs, Nat.add_comm]

def label (error : Error) : Report.Label :=
  .ofSpan error.span error.problem.advice

/-- The end of the source, where a frame has no row of its own for what follows a terminator. -/
def behindRows (before piece after : List Char) : Bool :=
  (piece ++ after).isEmpty && endsWithTerminator before

/-- Where an error stands in the source, between `before` and `after`, and which lines its two
reports name. -/
structure Located (path source : String) (error : Error) (before piece after : List Char) :
    Prop where
  split : source.toList = before ++ (piece ++ after)
  start : byteLength before = error.span.start.toNat
  stop : error.span.start.toNat + byteLength piece = error.span.stop
  plain : error.plain (.ofString source)
    = "[line " ++ toString (1 + before.count '\n') ++ "] " ++ error.message
  framed : Narrow before → error.label.fits source.toList.length = true →
    ∃ line, error.framed.Names path source line ∧
      line + (if behindRows before piece after then 1 else 0)
        = 1 + before.count '\n' + otherEnds before
  fits : Narrow (before ++ piece) → error.label.fits source.toList.length = true
  agree_iff : Narrow (before ++ piece) →
    (error.framed.Names path source (1 + before.count '\n') ↔
      otherEnds before = if behindRows before piece after then 1 else 0)

theorem plain_of_split (hsource : source.toList = before ++ (piece ++ after))
    (hstart : byteLength before = error.span.start.toNat) :
    error.plain (.ofString source)
      = "[line " ++ toString (1 + before.count '\n') ++ "] " ++ error.message := by
  rw [plain, Lines.tag, Lines.ofString, ← hstart, hsource, Lines.lineAt_ofText]

theorem names_of_label (path : String) (hfits : error.label.fits source.toList.length = true)
    (hplace : error.framed.place ≤ source.toList.length) :
    error.framed.Names path source (rowOf (rows source.toList) error.framed.place + 1) :=
  Report.Framed.names_of_fits rfl hfits hplace path

theorem names_of_split (hsource : source.toList = before ++ (piece ++ after))
    (hstart : byteLength before = error.span.start.toNat)
    (hhead : (piece ++ after).head? ≠ some '\n') (hnarrow : Narrow before)
    (hfits : error.label.fits source.toList.length = true) (path : String) :
    ∃ line, error.framed.Names path source line ∧
      line + (if behindRows before piece after then 1 else 0)
        = 1 + before.count '\n' + otherEnds before := by
  have hplace : error.framed.place = before.length := hstart.symm.trans hnarrow.byteLength_eq
  have hle : error.framed.place ≤ source.toList.length := by
    rw [hplace, hsource, List.length_append]
    exact Nat.le_add_right _ _
  have hnames := names_of_label path hfits hle
  rw [hplace, hsource] at hnames
  exact ⟨_, hnames, rowOf_rows before hhead⟩

theorem fits_of_split (hsource : source.toList = before ++ (piece ++ after))
    (hstart : byteLength before = error.span.start.toNat)
    (hstop : error.span.start.toNat + byteLength piece = error.span.stop)
    (hnarrow : Narrow (before ++ piece)) : error.label.fits source.toList.length = true := by
  have hlength : error.span.stop = (before ++ piece).length := by
    rw [← hstop, ← hstart, ← byteLength_append, hnarrow.byteLength_eq]
  have hsize : (before ++ piece).length ≤ source.toList.length := by
    rw [hsource, ← List.append_assoc]
    exact (List.prefix_append (before ++ piece) after).length_le
  rw [Report.Label.fits, Bool.and_eq_true, Bool.or_eq_true]
  refine ⟨decide_eq_true ?_, Or.inr (decide_eq_true ?_)⟩
  · change error.span.start.toNat ≤ _
    omega
  · change error.span.stop ≤ _
    omega

/-- Each error has its place in the source. The plain report counts the line feeds in front of it,
and the framed report all line ends, but for a terminator at the end of the source. Nothing is said
of the framed report where characters of several bytes stand before the end of the span, as byte
offsets are handed over as character offsets there. -/
theorem located_ofSource (path : String) (hsize : byteLength source.toList < 2 ^ 32 - 1)
    (herror : error ∈ (Program.ofSource source).errors) :
    ∃ before piece after, error.Located path source before piece after := by
  have hsize : byteLength source.toList < 2 ^ 32 := by omega
  obtain ⟨token, htoken, hspan, -⟩ := (precise_ofSource source hsize).about error herror
  obtain ⟨before, piece, after, hsource, hstart, hstop, hhead⟩ :=
    Token.exists_split_of_mem hsize htoken
  rw [← hspan] at hstart hstop
  have hnames (hnarrow : Narrow before) hfits :=
    names_of_split hsource hstart hhead hnarrow hfits path
  have hfits := fits_of_split hsource hstart hstop
  refine ⟨before, piece, after, hsource, hstart, hstop, plain_of_split hsource hstart, hnames,
    hfits, fun hnarrow => ?_⟩
  obtain ⟨line, hline, heq⟩ := hnames (fun c hc => hnarrow c (List.mem_append_left _ hc))
    (hfits hnarrow)
  constructor
  · intro hsame
    obtain rfl := hline.unique hsame
    omega
  · intro hends
    obtain rfl : line = 1 + before.count '\n' := by omega
    exact hline

/-- A carriage return with a line feed, one without, and a number for a name in the third row. -/
theorem located_ofSource_rows :
    let source := "a;\r\nb;\rlet 5"
    let error : Error := ⟨.unexpected .ident (some .int), .ofBounds 11 12⟩
    byteLength source.toList < 2 ^ 32 - 1 ∧ error ∈ (Program.ofSource source).errors ∧
      (∃ before piece after, error.Located "rows" source before piece after) ∧
      error.plain (.ofString source) = "[line 2] Expected next token to be IDENT but was INT" ∧
      error.framed.Names "rows" source 3 := by
  intro source error
  have hsize : byteLength source.toList < 2 ^ 32 - 1 := by decide
  have herror : error ∈ (Program.ofSource source).errors := by decide +kernel
  have hrow : rowOf (rows source.toList) error.framed.place + 1 = 3 := by decide +kernel
  have hnames := names_of_label "rows" (show error.label.fits source.toList.length = true by
    decide +kernel) (by decide +kernel)
  rw [hrow] at hnames
  exact ⟨hsize, herror, located_ofSource "rows" hsize herror, by decide +kernel, hnames⟩

/-- The span of the error holds no line end. -/
def WithinLine (source : String) (error : Error) : Prop :=
  ∀ piece, IsSlice source.toList error.span.start.toNat error.span.stop piece →
    ∀ c ∈ piece, isTerminator c = false

/-- At the end of a source that a line feed ends, the two reports name different lines. -/
theorem not_names_of_plain :
    ¬∀ (path source : String) (error : Error) (line : Nat),
      error ∈ (Program.ofSource source).errors → error.WithinLine source →
      error.framed.Names path source line →
      error.plain (.ofString source) = "[line " ++ toString line ++ "] " ++ error.message := by
  intro h
  let source := "let x =\n"
  let error : Error := ⟨.noExpression .eof, .ofBounds 8 8⟩
  have herror : error ∈ (Program.ofSource source).errors := by decide +kernel
  have hwithin : error.WithinLine source := by
    rintro piece ⟨before, after, -, -, hstop⟩
    have hzero : byteLength piece = 0 := by
      have hsame : error.span.start.toNat = error.span.stop := by decide
      omega
    cases piece with
    | nil => exact nofun
    | cons c rest =>
      have hpos := byteLength_pos (List.cons_ne_nil c rest)
      omega
  have hrow : rowOf (rows source.toList) error.framed.place + 1 = 1 := by decide +kernel
  have hnames := names_of_label "input" (show error.label.fits source.toList.length = true by
    decide +kernel) (by decide +kernel)
  rw [hrow] at hnames
  exact absurd (h "input" source error 1 herror hwithin hnames) (by decide +kernel)

end Grammar.Error

end Scriptlet
