import Mathlib.Logic.Function.Iterate
import Scriptlet.Proofs.Sliced

/-! # Scanning from an offset

Between two characters, what is scanned is read off the text behind the offset. The text in front
moves the result and does nothing else to it, and blank characters may be passed over beforehand.
Whoever goes on where the last token ended comes to the end of the source, and stays there. From
inside a character there is no way on: the end of input is found right there, short of the end of
the source.
-/

namespace Scriptlet

namespace Text

/-- The offset falls between two characters, or on one of the ends of the text. -/
def IsBoundary (cs : List Char) (offset : Nat) : Prop :=
  ∃ before after, cs = before ++ after ∧ byteLength before = offset

/-- The offset falls inside a character. -/
def IsInside (cs : List Char) (offset : Nat) : Prop :=
  offset < byteLength cs ∧ ¬IsBoundary cs offset

variable {cs : List Char} {offset : Nat}

theorem isSome_fromByte?_iff : (fromByte? offset cs).isSome = true ↔ IsBoundary cs offset := by
  simp only [Option.isSome_iff_exists, fromByte?_eq_some_iff, IsBoundary]
  exact exists_comm

instance : Decidable (IsBoundary cs offset) :=
  decidable_of_iff _ isSome_fromByte?_iff

instance : Decidable (IsInside cs offset) :=
  inferInstanceAs (Decidable (_ ∧ _))

end Text

open Text

/-! ### Spans that are moved -/

theorem Span.start_shift {distance : Nat} {span : Span} (h : distance + span.stop < 2 ^ 32) :
    (span.shift distance).start.toNat = distance + span.start.toNat := by
  simp only [stop] at h
  simp only [shift, UInt32.toNat_add, Nat.toUInt32_eq, UInt32.toNat_ofNat']
  omega

theorem Span.stop_shift {distance : Nat} {span : Span} (h : distance + span.stop < 2 ^ 32) :
    (span.shift distance).stop = distance + span.stop := by
  rw [stop, start_shift h, stop, shift, Nat.add_assoc]

namespace Token

theorem stop_read_le {offset : Nat} {cs : List Char} (h : offset + byteLength cs < 2 ^ 32) :
    (read offset cs).token.span.stop ≤ offset + byteLength cs := by
  rcases blank_or_lexeme cs with hblank | ⟨blanks, c, ds, rfl, hblank, hc⟩
  · rw [read_blank hblank, eofAt, Span.stop_ofBounds (Nat.le_refl _) h]
  · have hcovered := congrArg byteLength (Lexeme.read_covered_append_rest c ds)
    rw [byteLength_append] at hcovered h ⊢
    rw [read_lexeme hblank hc, (span_tokenAt _ _ (by omega)).2]
    omega

/-! ### The text behind an offset -/

theorem scan_of_append {source : String} {before rest : List Char}
    (h : source.toList = before ++ rest) :
    scan source (byteLength before)
      = ((read (byteLength before) rest).token, (read (byteLength before) rest).next) := by
  simp only [scan, h, fromByte?_byteLength_append]

theorem scan_append (front : String) {source : String} {offset : Nat}
    (h : IsBoundary source.toList offset) :
    scan (front ++ source) (byteLength front.toList + offset)
      = (scan source offset).map (mapSpan (Span.shift (byteLength front.toList)))
          (byteLength front.toList + ·) := by
  obtain ⟨before, rest, hsource, rfl⟩ := h
  have happend : (front ++ source).toList = (front.toList ++ before) ++ rest := by
    rw [String.toList_append, hsource, List.append_assoc]
  rw [← byteLength_append, scan_of_append happend, scan_of_append hsource, byteLength_append,
    read_add]
  rfl

theorem scan_of_blankBetween {source : String} {start stop : Nat}
    (h : BlankBetween source.toList start stop) : scan source stop = scan source start := by
  obtain ⟨blanks, ⟨before, rest, hsource, rfl, rfl⟩, hblank⟩ := h
  have hbehind : source.toList = (before ++ blanks) ++ rest := by
    rw [hsource, List.append_assoc]
  rw [← byteLength_append, scan_of_append hbehind, scan_of_append hsource,
    read_append_blank hblank, byteLength_append]

theorem stop_scan_le {source : String} {offset : Nat} (hsize : byteLength source.toList < 2 ^ 32)
    (h : IsBoundary source.toList offset) :
    (scan source offset).1.span.stop ≤ byteLength source.toList := by
  obtain ⟨before, rest, hsource, rfl⟩ := h
  rw [hsource, byteLength_append] at hsize ⊢
  rw [scan_of_append hsource]
  exact stop_read_le hsize

/-- This is what is scanned at an offset, whether the text behind the offset is read or the source
is cut. -/
def Scans (source : String) (offset : Nat) (result : Token × Nat) : Prop :=
  scan source offset = result ∧ scanBySlices source offset = some result

/-- What is scanned at an offset depends on the text behind it. Text in front of the source moves
the token and the offset to go on from, and no more. Blank characters make no difference. -/
theorem scans_behind {front source : String}
    (hsize : byteLength (front ++ source).toList < 2 ^ 32) {offset : Nat}
    (h : IsBoundary source.toList offset) :
    ∃ token next, Scans source offset (token, next) ∧
      Scans (front ++ source) (byteLength front.toList + offset)
        (token.mapSpan (Span.shift (byteLength front.toList)),
          byteLength front.toList + next) ∧
      (token.span.shift (byteLength front.toList)).start.toNat
        = byteLength front.toList + token.span.start.toNat ∧
      (token.span.shift (byteLength front.toList)).stop
        = byteLength front.toList + token.span.stop ∧
      ∀ later, BlankBetween source.toList offset later → Scans source later (token, next) := by
  have hwhole := hsize
  rw [String.toList_append, byteLength_append] at hwhole
  have hsource : byteLength source.toList < 2 ^ 32 := by omega
  have hstop := stop_scan_le hsource h
  have hmoved : byteLength front.toList + (scan source offset).1.span.stop < 2 ^ 32 := by omega
  refine ⟨_, _, ⟨rfl, scanBySlices_eq hsource offset⟩, ?_, Span.start_shift hmoved,
    Span.stop_shift hmoved, fun later hlater => ?_⟩
  · have hscan := scan_append front h
    exact ⟨hscan, (scanBySlices_eq hsize _).trans (congrArg some hscan)⟩
  · have hsame := scan_of_blankBetween hlater
    exact ⟨hsame, (scanBySlices_eq hsource later).trans (congrArg some hsame)⟩

/-- Blank characters of one and of three bytes behind a letter of two bytes, and in front of it all
the start of a string. -/
theorem scans_behind_letter :
    let front := "\"é"
    let source := "ä \u3000x1"
    byteLength (front ++ source).toList < 2 ^ 32 ∧ IsBoundary source.toList 2 ∧
      BlankBetween source.toList 2 6 ∧ Scans source 2 (⟨.ident, "x", ⟨6, 1⟩⟩, 7) ∧
      Scans source 6 (⟨.ident, "x", ⟨6, 1⟩⟩, 7) ∧
      Scans (front ++ source) (3 + 2) (⟨.ident, "x", ⟨9, 1⟩⟩, 10) := by
  intro front source
  have hsize : byteLength (front ++ source).toList < 2 ^ 32 := by decide
  have hboundary : IsBoundary source.toList 2 := by decide
  have hblank : BlankBetween source.toList 2 6 := by
    refine ⟨[' ', '\u3000'], ⟨['ä'], ['x', '1'], by decide, by decide, by decide⟩, ?_⟩
    exact List.forall_mem_cons.mpr ⟨by decide, List.forall_mem_singleton.mpr (by decide)⟩
  obtain ⟨token, next, hscans, hmoved, -, -, hlater⟩ := scans_behind hsize hboundary
  have hresult : scan source 2 = (⟨.ident, "x", ⟨6, 1⟩⟩, 7) := by decide +kernel
  have hfront : byteLength front.toList = 3 := by decide
  have hplace : mapSpan (Span.shift 3) ⟨.ident, "x", ⟨6, 1⟩⟩ = ⟨.ident, "x", ⟨9, 1⟩⟩ := by decide
  cases hscans.1.symm.trans hresult
  rw [hfront, hplace] at hmoved
  exact ⟨hsize, hboundary, hblank, hscans, hlater 6 hblank, hmoved⟩

/-! ### One call after the other -/

/-- Where scanning goes on after this many calls, each of them from where the one before ended. -/
def offsetAfter (source : String) (count offset : Nat) : Nat :=
  (fun place => (scan source place).2)^[count] offset

/-- The end of input, without extent at the very end of the source, and no further to go. -/
structure IsEnd (source : String) (result : Token × Nat) : Prop where
  kind : result.1.kind = .eof
  literal : result.1.literal = ""
  start : result.1.span.start.toNat = byteLength source.toList
  stop : result.1.span.stop = byteLength source.toList
  next : result.2 = byteLength source.toList

def endOf (source : String) : Token × Nat :=
  (eofAt (byteLength source.toList), byteLength source.toList)

theorem isEnd_endOf {source : String} (hsize : byteLength source.toList < 2 ^ 32) :
    IsEnd source (endOf source) where
  kind := rfl
  literal := rfl
  start := Span.start_ofBounds hsize
  stop := Span.stop_ofBounds (Nat.le_refl _) hsize
  next := rfl

section Calls

variable {source : String} {offset : Nat}

theorem scan_of_not_isBoundary (h : ¬IsBoundary source.toList offset) :
    scan source offset
      = (eofAt (min offset (byteLength source.toList)), min offset (byteLength source.toList)) := by
  rw [← isSome_fromByte?_iff, Option.not_isSome_iff_eq_none] at h
  simp only [scan, h]

theorem scan_of_le (h : byteLength source.toList ≤ offset) : scan source offset = endOf source := by
  by_cases hboundary : IsBoundary source.toList offset
  · obtain ⟨before, rest, hsource, rfl⟩ := hboundary
    have hlength := congrArg byteLength hsource
    rw [byteLength_append] at hlength
    have hrest : rest = [] := by
      refine Decidable.byContradiction fun hne => ?_
      have := byteLength_pos hne
      omega
    subst hrest
    rw [scan_of_append hsource, read_blank (List.forall_mem_nil _), endOf, hlength]
  · rw [scan_of_not_isBoundary hboundary, Nat.min_eq_right h, endOf]

theorem scan_of_isInside (h : IsInside source.toList offset) :
    scan source offset = (eofAt offset, offset) := by
  rw [scan_of_not_isBoundary h.2, Nat.min_eq_left (Nat.le_of_lt h.1)]

theorem offsetAfter_succ (count : Nat) :
    offsetAfter source (count + 1) offset = offsetAfter source count (scan source offset).2 :=
  Function.iterate_succ_apply _ _ _

theorem offsetAfter_add (count more : Nat) :
    offsetAfter source (more + count) offset
      = offsetAfter source more (offsetAfter source count offset) :=
  Function.iterate_add_apply _ _ _ _

/-- A call that ends where it started is followed by the same call for ever. -/
theorem offsetAfter_of_fixed (h : (scan source offset).2 = offset) (count : Nat) :
    offsetAfter source count offset = offset :=
  Function.iterate_fixed h count

theorem scan_offsetAfter_of_isInside (h : IsInside source.toList offset) (count : Nat) :
    scan source (offsetAfter source count offset) = (eofAt offset, offset) := by
  have hscan := scan_of_isInside h
  have hfixed : (scan source offset).2 = offset := congrArg Prod.snd hscan
  rw [offsetAfter_of_fixed hfixed, hscan]

/-- The end of the source is not left again. -/
theorem scan_offsetAfter_of_end (h : scan source offset = endOf source) (count : Nat) :
    scan source (offsetAfter source count offset) = endOf source := by
  cases count with
  | zero => exact h
  | succ count =>
    have hend : scan source (endOf source).2 = endOf source := scan_of_le (Nat.le_refl _)
    have hfixed : (scan source (endOf source).2).2 = (endOf source).2 := congrArg Prod.snd hend
    rw [offsetAfter_succ, h, offsetAfter_of_fixed hfixed, hend]

/-- Every call but the last takes at least one character of the text that is left. -/
theorem exists_offsetAfter_end (rest : List Char) : ∀ {before : List Char},
    source.toList = before ++ rest → ∃ count ≤ rest.length,
      scan source (offsetAfter source count (byteLength before)) = endOf source := by
  induction rest using lexemeInduction with
  | blank cs hblank =>
    intro before hsource
    refine ⟨0, Nat.zero_le _, ?_⟩
    change scan source (byteLength before) = endOf source
    rw [scan_of_append hsource, read_blank hblank, endOf, hsource, byteLength_append]
  | lexeme blanks c ds hblank hc ih =>
    intro before hsource
    have hbehind : source.toList
        = (before ++ blanks ++ (Lexeme.read c ds).covered) ++ (Lexeme.read c ds).rest := by
      rw [hsource, ← Lexeme.read_covered_append_rest c ds]
      simp only [List.append_assoc]
    have hnext : (scan source (byteLength before)).2
        = byteLength (before ++ blanks ++ (Lexeme.read c ds).covered) := by
      rw [scan_of_append hsource, read_lexeme hblank hc]
      simp only [byteLength_append]
    obtain ⟨count, hcount, hend⟩ := ih hbehind
    have hlength := Lexeme.length_rest_read_le c ds
    refine ⟨count + 1, ?_, ?_⟩
    · simp only [List.length_append, List.length_cons]
      omega
    · rw [offsetAfter_succ, hnext, hend]

/-- From an offset that is not inside a character it takes no more calls than there are characters,
and one for the end. -/
theorem exists_offsetAfter_of_not_isInside (h : ¬IsInside source.toList offset) :
    ∃ count ≤ source.length, scan source (offsetAfter source count offset) = endOf source := by
  rcases Nat.lt_or_ge offset (byteLength source.toList) with hlt | hge
  · obtain ⟨before, rest, hsource, rfl⟩ :=
      Decidable.not_not.mp fun hboundary => h ⟨hlt, hboundary⟩
    obtain ⟨count, hcount, hend⟩ := exists_offsetAfter_end rest hsource
    have hlength := congrArg List.length hsource
    rw [String.length_toList, List.length_append] at hlength
    exact ⟨count, by omega, hend⟩
  · exact ⟨0, Nat.zero_le _, scan_of_le hge⟩

end Calls

/-- From any offset but one inside a character, calls in a row come to the end of the source, with
one call for each character and one for the end at the most, and stay there. From inside a character
every call finds the end of input at that same place, and none finds the end of the source. -/
theorem scan_offsetAfter {source : String} (hsize : byteLength source.toList < 2 ^ 32)
    (offset : Nat) :
    (¬IsInside source.toList offset → ∃ count ≤ source.length, ∀ later, count ≤ later →
      IsEnd source (scan source (offsetAfter source later offset))) ∧
    (IsInside source.toList offset → ∀ count,
      scan source (offsetAfter source count offset) = (eofAt offset, offset) ∧
        ¬IsEnd source (scan source (offsetAfter source count offset))) := by
  constructor
  · intro hinside
    obtain ⟨count, hcount, hend⟩ := exists_offsetAfter_of_not_isInside hinside
    refine ⟨count, hcount, fun later hlater => ?_⟩
    rw [← Nat.sub_add_cancel hlater, offsetAfter_add, scan_offsetAfter_of_end hend]
    exact isEnd_endOf hsize
  · intro hinside count
    have hscan := scan_offsetAfter_of_isInside hinside count
    refine ⟨hscan, fun hend => ?_⟩
    have hnext := hend.next
    rw [hscan] at hnext
    exact Nat.ne_of_lt hinside.1 hnext

/-- From inside a string that is not closed, and from inside a letter of two bytes. -/
theorem scan_offsetAfter_letter :
    let source := "é + \"a b"
    byteLength source.toList < 2 ^ 32 ∧
      (¬IsInside source.toList 6 ∧ ∃ count ≤ source.length, ∀ later, count ≤ later →
        IsEnd source (scan source (offsetAfter source later 6))) ∧
      IsInside source.toList 1 ∧ ∀ count,
        scan source (offsetAfter source count 1) = (eofAt 1, 1) ∧
          ¬IsEnd source (scan source (offsetAfter source count 1)) := by
  intro source
  have hsize : byteLength source.toList < 2 ^ 32 := by decide
  have hbetween : ¬IsInside source.toList 6 := by decide
  have hinside : IsInside source.toList 1 := by decide
  exact ⟨hsize, ⟨hbetween, (scan_offsetAfter hsize 6).1 hbetween⟩, hinside,
    (scan_offsetAfter hsize 1).2 hinside⟩

/-- Not from every offset do calls in a row come to the end of the source. -/
theorem not_isEnd_offsetAfter :
    ¬∀ (source : String) (offset : Nat), byteLength source.toList < 2 ^ 32 → offset < 2 ^ 32 →
      ∃ count ≤ source.length, ∀ later, count ≤ later →
        IsEnd source (scan source (offsetAfter source later offset)) := by
  intro h
  have hinside : IsInside "é".toList 1 := by decide
  obtain ⟨count, -, hend⟩ := h "é" 1 (by decide) (by decide)
  have hnext := (hend count (Nat.le_refl _)).next
  rw [scan_offsetAfter_of_isInside hinside] at hnext
  exact absurd hnext (by decide)

end Token

end Scriptlet
