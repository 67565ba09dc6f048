import Scriptlet.Proofs.Tiling

/-! # Scanning by slices

A scanner that works on offsets cuts the source at them: from an offset to the end, or between two
offsets. A cut that is out of order, outside the source or inside a character is an error that
nothing handles, and so is a span whose end is out of the range of a machine word. Here such a
scanner has no result where that happens, and it is shown to have one everywhere: the one that is
read off the text at the offset.
-/

namespace Scriptlet

namespace Text

/-- The piece between two byte offsets, if they are in order, within the text and between
characters. -/
def slice? (cs : List Char) (start stop : Nat) : Option (List Char) :=
  if start ≤ stop then do
    let rest ← fromByte? start cs
    let after ← fromByte? (stop - start) rest
    return rest.take (rest.length - after.length)
  else none

theorem slice?_eq_some_iff {cs piece : List Char} {start stop : Nat} :
    slice? cs start stop = some piece ↔ IsSlice cs start stop piece := by
  constructor
  · intro h
    simp only [slice?, Option.ite_none_right_eq_some] at h
    obtain ⟨hle, hbind⟩ := h
    obtain ⟨rest, hrest, htail⟩ := Option.bind_eq_some_iff.mp hbind
    obtain ⟨after, hafter, hpiece⟩ := Option.bind_eq_some_iff.mp htail
    obtain ⟨before, rfl, hbefore⟩ := fromByte?_eq_some_iff.mp hrest
    obtain ⟨body, rfl, hbody⟩ := fromByte?_eq_some_iff.mp hafter
    have heq : body = piece := by simpa using hpiece
    exact ⟨before, after, by rw [heq], hbefore, by rw [← heq]; omega⟩
  · rintro ⟨before, after, rfl, rfl, rfl⟩
    have hlength : byteLength before + byteLength piece - byteLength before = byteLength piece := by
      omega
    simp [slice?, fromByte?_byteLength_append, hlength]

/-- The byte offset of the first character without the property. -/
def firstNot? (p : Char → Bool) : List Char → Option Nat
  | [] => none
  | c :: cs => if p c then (firstNot? p cs).map (c.utf8Size + ·) else some 0

theorem firstNot?_eq (p : Char → Bool) (cs : List Char) :
    firstNot? p cs
      = if cs.dropWhile p = [] then none else some (byteLength (cs.takeWhile p)) := by
  induction cs with
  | nil => rfl
  | cons c cs ih =>
    by_cases hc : p c = true
    · rw [firstNot?, if_pos hc, ih, List.dropWhile_cons_of_pos hc, List.takeWhile_cons_of_pos hc]
      split <;> rfl
    · rw [firstNot?, if_neg hc, List.dropWhile_cons_of_neg hc, List.takeWhile_cons_of_neg hc]
      rfl

end Text

open Text

/-- The span between two offsets, if they are in order and its end is a machine word. -/
def Span.ofBounds? (start stop : Nat) : Option Span :=
  if start ≤ stop ∧ (ofBounds start stop).stop < 2 ^ 32 then some (ofBounds start stop) else none

theorem Span.ofBounds?_eq {start stop : Nat} (hle : start ≤ stop) (h : stop < 2 ^ 32) :
    ofBounds? start stop = some (ofBounds start stop) :=
  if_pos ⟨hle, (stop_ofBounds hle h).symm ▸ h⟩

namespace Token

section Sliced

variable (cs : List Char) (start : Nat)

/-- The token that covers the text from `start` up to `stop`, with this text as its literal. -/
def emit (kind : Kind) (stop : Nat) : Option (Token × Nat) := do
  let literal ← slice? cs start stop
  let span ← Span.ofBounds? start stop
  return (⟨kind, String.ofList literal, span⟩, stop)

/-- The offset up to which the characters from `start` on have the property. -/
def stopOf (p : Char → Bool) : Option Nat := do
  let rest ← fromByte? start cs
  return ((firstNot? p rest).map (start + ·)).getD (byteLength cs)

/-- The string whose opening quote stands at `start`. -/
def emitString : Option (Token × Nat) := do
  let contentStart := start + 1
  let content ← fromByte? contentStart cs
  let (contentStop, stop) := match firstNot? (· != '"') content with
    | some index => (contentStart + index, contentStart + index + 1)
    | none => (byteLength cs, byteLength cs)
  let literal ← slice? cs contentStart contentStop
  let span ← Span.ofBounds? start stop
  return (⟨.string, String.ofList literal, span⟩, stop)

/-- The token whose first character is `c`, the one at `start`. -/
def emitFrom (c : Char) (following : List Char) : Option (Token × Nat) :=
  match Kind.ofMark? c with
  | some kind => emit cs start kind (start + c.utf8Size)
  | none =>
    if c = '=' then
      if following.head? = some '=' then emit cs start .equal (start + 2)
      else emit cs start .assign (start + c.utf8Size)
    else if c = '!' then
      if following.head? = some '=' then emit cs start .notEqual (start + 2)
      else emit cs start .bang (start + c.utf8Size)
    else if c = '"' then emitString cs start
    else if Lexeme.isWordChar c then do
      let stop ← stopOf cs start Lexeme.isWordChar
      let letters ← slice? cs start stop
      emit cs start (.ofWord (String.ofList letters)) stop
    else if c.isDigit then do
      let stop ← stopOf cs start Char.isDigit
      emit cs start .int stop
    else emit cs start .illegal (start + c.utf8Size)

end Sliced

/-- The token at or after an offset, found by cutting the source. -/
def scanBySlices (source : String) (offset : Nat) : Option (Token × Nat) :=
  let cs := source.toList
  let rest := (fromByte? offset cs).getD []
  let trimmed := rest.dropWhile isBlank
  let start := min offset (byteLength cs) + (byteLength rest - byteLength trimmed)
  match trimmed with
  | [] => do
    let span ← Span.ofBounds? start start
    return (⟨.eof, "", span⟩, start)
  | c :: following => emitFrom cs start c following

/-! ### Every cut is possible -/

/-- A lexeme as a token, and the offset behind it. -/
def Lexeme.emitted (lexeme : Lexeme) (start : Nat) : Token × Nat :=
  (lexeme.tokenAt start, start + byteLength lexeme.covered)

section Cuts

variable {cs before : List Char} (hsize : byteLength cs < 2 ^ 32)

include hsize

theorem ofBounds?_of_append {piece after : List Char} (hcs : cs = before ++ (piece ++ after)) :
    Span.ofBounds? (byteLength before) (byteLength before + byteLength piece)
      = some (.ofBounds (byteLength before) (byteLength before + byteLength piece)) := by
  rw [hcs, byteLength_append, byteLength_append] at hsize
  exact Span.ofBounds?_eq (Nat.le_add_right _ _) (by omega)

theorem emit_plain (kind : Kind) (covered : List Char) {rest : List Char} {stop : Nat}
    (hcs : cs = before ++ (covered ++ rest))
    (hstop : stop = byteLength before + byteLength covered) :
    emit cs (byteLength before) kind stop
      = some ((Lexeme.plain kind covered rest).emitted (byteLength before)) := by
  subst hstop
  have hslice := slice?_eq_some_iff.mpr ⟨before, rest, hcs, rfl, rfl⟩
  simp only [emit, hslice, ofBounds?_of_append hsize hcs, Option.bind_eq_bind, Option.bind_some]
  rfl

theorem emit_maybeEqual (alone withEqual : Kind) {c : Char} {following : List Char}
    (hc : c.utf8Size = 1) (hcs : cs = before ++ c :: following) :
    (if following.head? = some '=' then
        emit cs (byteLength before) withEqual (byteLength before + 2)
      else emit cs (byteLength before) alone (byteLength before + c.utf8Size))
      = some ((Lexeme.maybeEqual alone withEqual c following).emitted (byteLength before)) := by
  unfold Lexeme.maybeEqual
  split
  · next hhead =>
    obtain ⟨rest, rfl⟩ := List.head?_eq_some_iff.mp hhead
    exact emit_plain hsize withEqual [c, '='] hcs (by simp [hc]; rfl)
  · next hhead =>
    split
    · exact absurd rfl hhead
    · exact emit_plain hsize alone [c] hcs (by simp)

omit hsize in
theorem stopOf_eq (p : Char → Bool) {rest : List Char} (hcs : cs = before ++ rest) :
    stopOf cs (byteLength before) p = some (byteLength before + byteLength (rest.takeWhile p)) := by
  simp only [stopOf, hcs, fromByte?_byteLength_append, firstNot?_eq, Option.bind_eq_bind,
    Option.bind_some]
  split
  · next h =>
    have hwhole := List.takeWhile_append_dropWhile (p := p) (l := rest)
    rw [h, List.append_nil] at hwhole
    rw [hwhole, byteLength_append]
    rfl
  · rfl

omit hsize in
theorem slice?_content {body tail : List Char} (hcs : cs = before ++ '"' :: (body ++ tail)) :
    slice? cs (byteLength before + 1) (byteLength before + 1 + byteLength body) = some body :=
  slice?_eq_some_iff.mpr
    ⟨before ++ ['"'], tail, by rw [hcs, List.append_assoc]; rfl, byteLength_append before ['"'],
      rfl⟩

theorem emitString_eq {following : List Char} (hcs : cs = before ++ '"' :: following) :
    emitString cs (byteLength before)
      = some ((Lexeme.string following).emitted (byteLength before)) := by
  have hopened : cs = (before ++ ['"']) ++ following := by simp [hcs]
  have hcontent : fromByte? (byteLength before + 1) cs = some following := by
    rw [show byteLength before + 1 = _ from (byteLength_append before ['"']).symm, hopened,
      fromByte?_byteLength_append]
  have hhead := List.head?_dropWhile_not (· != '"') following
  have hsplit := List.takeWhile_append_dropWhile (p := (· != '"')) (l := following)
  simp only [emitString, Lexeme.string, hcontent, firstNot?_eq, Option.bind_eq_bind,
    Option.bind_some]
  generalize following.takeWhile (· != '"') = body at hsplit ⊢
  cases hdrop : following.dropWhile (· != '"') with
  | nil =>
    rw [hdrop] at hsplit
    rw [← hsplit] at hcs
    have hpiece : cs = before ++ ('"' :: body ++ []) := hcs
    have hspan := ofBounds?_of_append hsize hpiece
    have hstop : byteLength cs = byteLength before + byteLength ('"' :: body) := by
      rw [hcs, List.append_nil, byteLength_append]
    have hslice : slice? cs (byteLength before + 1) (byteLength before + byteLength ('"' :: body))
        = some body := by
      rw [byteLength_cons, ← Nat.add_assoc]
      exact slice?_content hcs
    simp only [if_true, hstop, hslice, hspan, Option.bind_some, Lexeme.emitted]
    rfl
  | cons quote rest =>
    rw [hdrop] at hsplit hhead
    have hquote : quote = '"' := by simpa using hhead
    rw [← hsplit, hquote] at hcs
    have hpiece : cs = before ++ ('"' :: (body ++ ['"']) ++ rest) := by simp [hcs]
    have hspan := ofBounds?_of_append hsize hpiece
    have hstop : byteLength before + 1 + byteLength body + 1
        = byteLength before + byteLength ('"' :: (body ++ ['"'])) := by
      rw [byteLength_cons, byteLength_append, ← Nat.add_assoc, ← Nat.add_assoc]
      rfl
    simp only [List.cons_ne_nil, if_false, slice?_content hcs, hstop, hspan, Option.bind_some,
      Lexeme.emitted, hquote]
    rfl

theorem emitFrom_eq {c : Char} {following : List Char} (hcs : cs = before ++ c :: following) :
    emitFrom cs (byteLength before) c following
      = some ((Lexeme.read c following).emitted (byteLength before)) := by
  have hone : ∀ kind, emit cs (byteLength before) kind (byteLength before + c.utf8Size)
      = some ((Lexeme.plain kind [c] following).emitted (byteLength before)) :=
    fun kind => emit_plain hsize kind [c] hcs (by simp)
  have hwhile : ∀ (p : Char → Bool) (kind : Kind), emit cs (byteLength before) kind
      (byteLength before + byteLength ((c :: following).takeWhile p))
      = some ((Lexeme.plain kind ((c :: following).takeWhile p)
          ((c :: following).dropWhile p)).emitted (byteLength before)) :=
    fun p kind => emit_plain hsize kind _
      (by rw [List.takeWhile_append_dropWhile, hcs]) rfl
  unfold emitFrom Lexeme.read
  cases Kind.ofMark? c with
  | some kind => exact hone kind
  | none =>
  dsimp only
  split
  · next h => exact emit_maybeEqual hsize .assign .equal (h ▸ rfl) hcs
  split
  · next h => exact emit_maybeEqual hsize .bang .notEqual (h ▸ rfl) hcs
  split
  · next h => exact emitString_eq hsize (h ▸ hcs)
  split
  · have hletters : slice? cs (byteLength before)
        (byteLength before + byteLength ((c :: following).takeWhile Lexeme.isWordChar))
        = some ((c :: following).takeWhile Lexeme.isWordChar) :=
      slice?_eq_some_iff.mpr ⟨before, (c :: following).dropWhile Lexeme.isWordChar,
        by rw [List.takeWhile_append_dropWhile, hcs], rfl, rfl⟩
    simp only [stopOf_eq Lexeme.isWordChar hcs, hletters, Option.bind_eq_bind, Option.bind_some]
    exact hwhile _ _
  split
  · simp only [stopOf_eq Char.isDigit hcs, Option.bind_eq_bind, Option.bind_some]
    exact hwhile _ _
  · exact hone _

end Cuts

theorem scanBySlices_eq {source : String} (hsize : byteLength source.toList < 2 ^ 32)
    (offset : Nat) : scanBySlices source offset = some (scan source offset) := by
  simp only [scanBySlices, scan]
  cases hrest : fromByte? offset source.toList with
  | none =>
    have hspan := Span.ofBounds?_eq (Nat.le_refl _)
      (Nat.lt_of_le_of_lt (Nat.min_le_right offset (byteLength source.toList)) hsize)
    simp [hspan, eofAt]
  | some rest =>
    obtain ⟨before, hsource, rfl⟩ := fromByte?_eq_some_iff.mp hrest
    have hsplit := List.takeWhile_append_dropWhile (p := isBlank) (l := rest)
    have hlength := congrArg byteLength hsplit
    have hwhole := congrArg byteLength hsource
    rw [byteLength_append] at hlength hwhole
    have hstart : min (byteLength before) (byteLength source.toList)
        + (byteLength rest - byteLength (rest.dropWhile isBlank))
        = byteLength before + byteLength (rest.takeWhile isBlank) := by
      omega
    simp only [Option.getD_some, hstart, read]
    cases hdrop : rest.dropWhile isBlank with
    | nil =>
      have hspan := Span.ofBounds?_eq (Nat.le_refl _)
        (show byteLength before + byteLength (rest.takeWhile isBlank) < 2 ^ 32 by omega)
      simp only [hspan, Option.bind_eq_bind, Option.bind_some]
      rfl
    | cons c following =>
      rw [hdrop] at hsplit
      have hcs : source.toList = (before ++ rest.takeWhile isBlank) ++ c :: following := by
        rw [hsource, List.append_assoc, hsplit]
      have hemit := emitFrom_eq hsize hcs
      rw [byteLength_append] at hemit
      exact hemit

end Token

end Scriptlet
