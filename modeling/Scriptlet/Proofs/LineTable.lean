import Scriptlet.Proofs.KeyOrder
import Scriptlet.Proofs.Lines
import Scriptlet.Proofs.Tiling

/-! # The table of lines

The lines of a text follow one another without gaps from its first byte on, so that no search by
comparison can find another line for an offset than the first one that holds it. Comparisons come in
the order of the table, so that a search by halving finds this line. Up to the end of the text it is
the line that is found by counting line feeds, at offsets inside a character too, and behind the end
it is the line beyond the table.
-/

namespace Scriptlet

namespace Text

open String (utf8EncodeChar)

/-! ### Line feeds among bytes -/

def lineFeed : UInt8 := 10

/-- The number of line feeds strictly before a byte offset. -/
def lineFeedsBefore (text : String) (offset : Nat) : Nat :=
  ((bytes text).take offset).count lineFeed

theorem length_flatMap_utf8EncodeChar (cs : List Char) :
    (cs.flatMap utf8EncodeChar).length = byteLength cs := by
  induction cs with
  | nil => rfl
  | cons c cs ih =>
    rw [List.flatMap_cons, List.length_append, ih, String.length_utf8EncodeChar, byteLength_cons]

theorem length_bytes (text : String) : (bytes text).length = byteLength text.toList := by
  rw [bytes_eq, length_flatMap_utf8EncodeChar]

/-- Only the line feed itself has its byte among its own. -/
theorem lineFeed_notMem_utf8EncodeChar {c : Char} (h : c ≠ '\n') :
    lineFeed ∉ utf8EncodeChar c := by
  have hval : c.val.toNat ≠ 10 := fun heq => h (Char.ext (UInt32.toNat_inj.mp heq))
  have hbyte {n : Nat} (hn : n < 256) (hne : n ≠ 10) : lineFeed ≠ UInt8.ofNat n := by
    intro heq
    have hnat := congrArg UInt8.toNat heq
    rw [UInt8.toNat_ofNat_of_lt' hn] at hnat
    exact hne hnat.symm
  unfold utf8EncodeChar
  generalize c.val.toNat = v at *
  intro hmem
  dsimp only at hmem
  split at hmem
  · exact hbyte (by omega) hval (List.mem_singleton.mp hmem)
  · split at hmem
    · simp only [List.mem_cons, List.not_mem_nil, or_false] at hmem
      rcases hmem with heq | heq <;> exact hbyte (by omega) (by omega) heq
    · split at hmem <;> simp only [List.mem_cons, List.not_mem_nil, or_false] at hmem
      · rcases hmem with heq | heq | heq <;> exact hbyte (by omega) (by omega) heq
      · rcases hmem with heq | heq | heq | heq <;> exact hbyte (by omega) (by omega) heq

namespace Lines

/-! ### The table, byte by byte -/

/-- The lines of some bytes, of which the first stands at `here` in a line that began at `start`. -/
def rangesOfBytes (start here : Nat) : List UInt8 → List (Nat × Nat)
  | [] => if start < here then [(start, here + 1)] else []
  | b :: bs =>
    if b = lineFeed then (start, here + 1) :: rangesOfBytes (here + 1) (here + 1) bs
    else rangesOfBytes start (here + 1) bs

theorem rangesOfBytes_append {bs : List UInt8} (h : lineFeed ∉ bs) (start here : Nat)
    (rest : List UInt8) :
    rangesOfBytes start here (bs ++ rest) = rangesOfBytes start (here + bs.length) rest := by
  induction bs generalizing here with
  | nil => rfl
  | cons b bs ih =>
    obtain ⟨hb, hbs⟩ := not_or.mp (mt List.mem_cons.mpr h)
    rw [List.cons_append, rangesOfBytes, if_neg (Ne.symm hb), ih hbs, List.length_cons,
      Nat.add_assoc, Nat.add_comm 1]

theorem rangesFrom_eq_rangesOfBytes (cs : List Char) (start here : Nat) :
    rangesFrom start here cs = rangesOfBytes start here (cs.flatMap utf8EncodeChar) := by
  induction cs generalizing start here with
  | nil => rfl
  | cons c cs ih =>
    rw [rangesFrom, List.flatMap_cons]
    split
    · next hc =>
      have hbytes : utf8EncodeChar c = [lineFeed] := hc ▸ rfl
      rw [hbytes, List.singleton_append, rangesOfBytes, if_pos rfl, ih]
    · next hc =>
      rw [rangesOfBytes_append (lineFeed_notMem_utf8EncodeChar hc), String.length_utf8EncodeChar,
        ih]

/-! ### Lines without gaps -/

/-- The lines are not empty, and each begins where the one before it ends. -/
def FollowFrom : Nat → List (Nat × Nat) → Prop
  | _, [] => True
  | start, line :: rest => line.1 = start ∧ line.1 < line.2 ∧ FollowFrom line.2 rest

theorem followFrom_rangesOfBytes (bs : List UInt8) {start here : Nat} (h : start ≤ here) :
    FollowFrom start (rangesOfBytes start here bs) := by
  induction bs generalizing start here with
  | nil =>
    rw [rangesOfBytes]
    split
    · exact ⟨rfl, by dsimp only; omega, trivial⟩
    · exact trivial
  | cons b bs ih =>
    rw [rangesOfBytes]
    split
    · exact ⟨rfl, by dsimp only; omega, ih (Nat.le_refl _)⟩
    · exact ih (by omega)

theorem FollowFrom.start_le {start : Nat} {lines : List (Nat × Nat)} (h : FollowFrom start lines)
    {line : Nat × Nat} (hline : line ∈ lines) : start ≤ line.1 := by
  induction lines generalizing start with
  | nil => cases hline
  | cons first rest ih =>
    obtain ⟨hstart, hlt, hrest⟩ := h
    rcases List.mem_cons.mp hline with rfl | hline
    · exact hstart.ge
    · have := ih hrest hline
      omega

theorem FollowFrom.lt {start : Nat} {lines : List (Nat × Nat)} (h : FollowFrom start lines)
    {line : Nat × Nat} (hline : line ∈ lines) : line.1 < line.2 := by
  induction lines generalizing start with
  | nil => cases hline
  | cons first rest ih =>
    obtain ⟨-, hlt, hrest⟩ := h
    rcases List.mem_cons.mp hline with rfl | hline
    · exact hlt
    · exact ih hrest hline

/-- The later of two lines begins later and ends later. -/
theorem FollowFrom.pairwise {start : Nat} {lines : List (Nat × Nat)} (h : FollowFrom start lines) :
    lines.Pairwise fun line next => line.1 ≤ next.1 ∧ line.2 ≤ next.2 := by
  induction lines generalizing start with
  | nil => exact .nil
  | cons first rest ih =>
    obtain ⟨-, hlt, hrest⟩ := h
    refine .cons (fun next hnext => ?_) (ih hrest)
    have hstart : first.2 ≤ next.1 := hrest.start_le hnext
    have hnext : next.1 < next.2 := hrest.lt hnext
    omega

/-- Only one line holds an offset, so that it is the first one to hold it. -/
theorem FollowFrom.findIdx_eq {start : Nat} {lines : List (Nat × Nat)} (h : FollowFrom start lines)
    {index offset : Nat} {line : Nat × Nat} (hline : lines[index]? = some line)
    (hholds : holds offset line = true) : lines.findIdx (holds offset) = index := by
  induction lines generalizing start index with
  | nil => cases hline
  | cons first rest ih =>
    obtain ⟨-, -, hrest⟩ := h
    cases index with
    | zero =>
      cases hline
      rw [List.findIdx_cons, hholds, cond_true]
    | succ index =>
      have hline : rest[index]? = some line := hline
      have hle := hrest.start_le (List.mem_of_getElem? hline)
      have hfirst : holds offset first = false := by
        simp only [holds, Bool.and_eq_true, Bool.and_eq_false_iff, decide_eq_true_eq,
          decide_eq_false_iff_not] at hholds ⊢
        omega
      rw [List.findIdx_cons, hfirst, cond_false, ih hrest hline]

/-! ### Searches by comparison -/

/-- How a line compares to an offset: it lies before it, behind it, or holds it. -/
def compareTo (offset : Nat) (line : Nat × Nat) : Ordering :=
  if offset < line.1 then .gt else if line.2 ≤ offset then .lt else .eq

theorem compareTo_eq_gt_iff (offset : Nat) (line : Nat × Nat) :
    compareTo offset line = .gt ↔ offset < line.1 := by
  simp only [compareTo]
  split
  · next hlt => exact iff_of_true rfl hlt
  · next hlt => split <;> exact iff_of_false (by decide) hlt

theorem compareTo_eq_lt_iff (offset : Nat) (line : Nat × Nat) :
    compareTo offset line = .lt ↔ line.1 ≤ offset ∧ line.2 ≤ offset := by
  simp only [compareTo]
  split
  · exact iff_of_false (by decide) (by omega)
  · split
    · exact iff_of_true rfl (by omega)
    · exact iff_of_false (by decide) (by omega)

theorem compareTo_eq_eq_iff (offset : Nat) (line : Nat × Nat) :
    compareTo offset line = .eq ↔ holds offset line = true := by
  simp only [compareTo, holds, Bool.and_eq_true, decide_eq_true_eq]
  split
  · exact iff_of_false (by decide) (by omega)
  · split
    · exact iff_of_false (by decide) (by omega)
    · exact iff_of_true rfl (by omega)

/-- What a search by comparison may come to in a table: the index of any line that compares equal,
and nothing only if there is none. -/
def Finds (lines : List (Nat × Nat)) (offset : Nat) : Option Nat → Prop
  | some index => ∃ line, lines[index]? = some line ∧ compareTo offset line = .eq
  | none => ∀ line ∈ lines, compareTo offset line ≠ .eq

/-- A search by halving among the lines from `low` on and before `high`. The line in the middle
holds the offset, or tells on which side of it to go on. -/
def bisectWithin (lines : List (Nat × Nat)) (offset low high : Nat) (hhigh : high ≤ lines.length) :
    Option Nat :=
  if hlow : low < high then
    let middle := low + (high - low) / 2
    have hmiddle : middle < high := by omega
    match compareTo offset lines[middle] with
    | .lt => bisectWithin lines offset (middle + 1) high hhigh
    | .gt => bisectWithin lines offset low middle (by omega)
    | .eq => some middle
  else none
termination_by high - low

/-- The index that a search by halving comes to in the whole table. -/
def bisect (lines : Lines) (offset : Nat) : Option Nat :=
  bisectWithin lines.ranges offset 0 lines.ranges.length (Nat.le_refl _)

/-- The search leaves only lines aside that lie before the offset, or behind it. -/
theorem finds_bisectWithin {lines : List (Nat × Nat)} {offset low high : Nat}
    {hhigh : high ≤ lines.length}
    (hordered : lines.Pairwise fun line next => line.1 ≤ next.1 ∧ line.2 ≤ next.2)
    (hbefore : ∀ index (h : index < lines.length), index < low →
      compareTo offset lines[index] = .lt)
    (hbehind : ∀ index (h : index < lines.length), high ≤ index →
      compareTo offset lines[index] = .gt) :
    Finds lines offset (bisectWithin lines offset low high hhigh) := by
  have hle {first second : Nat} (h : second < lines.length) (hlt : first < second) :=
    List.pairwise_iff_getElem.mp hordered first second (hlt.trans h) h hlt
  fun_induction bisectWithin lines offset low high hhigh with
  | case1 low high hhigh hlow middle hmiddle hlt ih =>
    refine ih (fun index h hindex => ?_) hbehind
    rcases Nat.lt_or_eq_of_le (Nat.le_of_lt_succ hindex) with hindex | rfl
    · have hends := (compareTo_eq_lt_iff offset _).mp hlt
      have hlines := hle (hmiddle.trans_le hhigh) hindex
      exact (compareTo_eq_lt_iff offset _).mpr (by omega)
    · exact hlt
  | case2 low high hhigh hlow middle hmiddle hgt ih =>
    refine ih hbefore fun index h hindex => ?_
    rcases Nat.lt_or_eq_of_le hindex with hindex | rfl
    · have hstarts := (compareTo_eq_gt_iff offset _).mp hgt
      have hlines := hle h hindex
      exact (compareTo_eq_gt_iff offset _).mpr (by omega)
    · exact hgt
  | case3 low high hhigh hlow middle hmiddle heq =>
    exact ⟨_, List.getElem?_eq_getElem _, heq⟩
  | case4 low high hhigh hlow =>
    intro line hline
    obtain ⟨index, hindex, rfl⟩ := List.mem_iff_getElem.mp hline
    by_cases hlt : index < low
    · rw [hbefore index hindex hlt]
      decide
    · rw [hbehind index hindex (by omega)]
      decide

theorem FollowFrom.finds_bisect {lines : Lines} (h : FollowFrom 0 lines.ranges) (offset : Nat) :
    Finds lines.ranges offset (lines.bisect offset) :=
  finds_bisectWithin h.pairwise (fun _ _ => nofun) fun _ hlt hle => absurd hlt (Nat.not_lt.mpr hle)

theorem FollowFrom.lineAt_eq {lines : Lines} (h : FollowFrom 0 lines.ranges) {offset : Nat}
    {found : Option Nat} (hfound : Finds lines.ranges offset found) :
    lines.lineAt offset = found.elim lines.beyond (· + 1) := by
  rw [lineAt_eq_findIdx]
  cases found with
  | some index =>
    obtain ⟨line, hline, heq⟩ := hfound
    rw [h.findIdx_eq hline ((compareTo_eq_eq_iff offset line).mp heq), Option.elim_some]
  | none =>
    refine congrArg Nat.succ (List.findIdx_eq_length.mpr fun line hline => ?_)
    exact Bool.eq_false_iff.mpr (mt (compareTo_eq_eq_iff offset line).mpr (hfound line hline))

/-! ### Lines by counting -/

theorem findIdx_rangesOfBytes (bs : List UInt8) {start here offset : Nat} (hstart : start ≤ offset)
    (hle : offset ≤ here + bs.length) :
    (rangesOfBytes start here bs).findIdx (holds offset)
      = (bs.take (offset - here)).count lineFeed := by
  induction bs generalizing start here with
  | nil =>
    rw [rangesOfBytes, List.take_nil, List.count_nil]
    rw [List.length_nil] at hle
    split
    · have hholds : holds offset (start, here + 1) = true := by
        simp only [holds, Bool.and_eq_true, decide_eq_true_eq]
        omega
      rw [List.findIdx_cons, hholds, cond_true]
    · rfl
  | cons b bs ih =>
    rw [List.length_cons] at hle
    rw [rangesOfBytes]
    by_cases hhere : offset ≤ here
    · -- The offset lies in the line that is not yet ended.
      rw [Nat.sub_eq_zero_of_le hhere, List.take_zero, List.count_nil]
      split
      · have hholds : holds offset (start, here + 1) = true := by
          simp only [holds, Bool.and_eq_true, decide_eq_true_eq]
          omega
        rw [List.findIdx_cons, hholds, cond_true]
      · rw [ih hstart (by omega), Nat.sub_eq_zero_of_le (by omega), List.take_zero,
          List.count_nil]
    · have hnext : offset - here = offset - (here + 1) + 1 := by omega
      rw [hnext, List.take_succ_cons]
      split
      · next hb =>
        have hholds : holds offset (start, here + 1) = false := by
          simp only [holds, Bool.and_eq_false_iff, decide_eq_false_iff_not]
          omega
        rw [List.findIdx_cons, hholds, cond_false, ih (by omega) (by omega), hb,
          List.count_cons_self]
      · next hb => rw [ih hstart (by omega), List.count_cons_of_ne hb]

theorem snd_le_of_mem_rangesOfBytes (bs : List UInt8) {start here : Nat} {line : Nat × Nat}
    (h : line ∈ rangesOfBytes start here bs) : line.2 ≤ here + bs.length + 1 := by
  induction bs generalizing start here with
  | nil =>
    rw [rangesOfBytes] at h
    split at h
    · cases List.mem_singleton.mp h
      exact Nat.le_refl _
    · cases h
  | cons b bs ih =>
    rw [rangesOfBytes] at h
    rw [List.length_cons]
    split at h
    · rcases List.mem_cons.mp h with rfl | h
      · dsimp only
        omega
      · have := ih h
        omega
    · have := ih h
      omega

section OfString

variable (text : String)

theorem ranges_ofString (h : text.toList ≠ []) :
    (ofString text).ranges = rangesOfBytes 0 0 (bytes text) := by
  rw [ofString, ofText, if_neg (mt List.isEmpty_iff.mp h), bytes_eq]
  exact rangesFrom_eq_rangesOfBytes text.toList 0 0

theorem ranges_ofString_of_nil (h : text.toList = []) : (ofString text).ranges = [(0, 1)] := by
  rw [ofString, h]
  rfl

theorem followFrom_ofString : FollowFrom 0 (ofString text).ranges := by
  by_cases h : text.toList = []
  · rw [ranges_ofString_of_nil text h]
    exact ⟨rfl, Nat.one_pos, trivial⟩
  · rw [ranges_ofString text h]
    exact followFrom_rangesOfBytes _ (Nat.le_refl 0)

variable {offset : Nat}

theorem lineAt_of_le (h : offset ≤ (bytes text).length) :
    (ofString text).lineAt offset = 1 + lineFeedsBefore text offset := by
  rw [lineAt_eq_findIdx, Nat.add_comm 1]
  refine congrArg Nat.succ ?_
  by_cases hnil : text.toList = []
  · have hbytes : bytes text = [] := by rw [bytes_eq, hnil, List.flatMap_nil]
    obtain rfl : offset = 0 := by
      rw [hbytes] at h
      exact Nat.le_zero.mp h
    rw [ranges_ofString_of_nil text hnil, lineFeedsBefore, List.take_zero]
    rfl
  · rw [ranges_ofString text hnil]
    exact findIdx_rangesOfBytes (bytes text) (Nat.zero_le _) (by omega)

theorem lineAt_of_lt (h : (bytes text).length < offset) :
    (ofString text).lineAt offset = (ofString text).beyond := by
  rw [lineAt_eq_findIdx]
  refine congrArg Nat.succ (List.findIdx_eq_length.mpr fun line hline => ?_)
  have hend : line.2 ≤ (bytes text).length + 1 := by
    by_cases hnil : text.toList = []
    · rw [ranges_ofString_of_nil text hnil] at hline
      cases List.mem_singleton.mp hline
      exact Nat.le_add_left _ _
    · rw [ranges_ofString text hnil] at hline
      have := snd_le_of_mem_rangesOfBytes _ hline
      omega
  simp only [holds, Bool.and_eq_false_iff, decide_eq_false_iff_not]
  omega

theorem lineAt_mono {first second : Nat} (h : first ≤ second) :
    (ofString text).lineAt first ≤ (ofString text).lineAt second := by
  by_cases hsecond : second ≤ (bytes text).length
  · rw [lineAt_of_le text (h.trans hsecond), lineAt_of_le text hsecond]
    have hsub : (bytes text).take first <+: (bytes text).take second :=
      List.take_prefix_take_left h
    exact Nat.add_le_add_left (hsub.sublist.count_le _) 1
  · rw [lineAt_of_lt text (Nat.lt_of_not_le hsecond)]
    exact lineAt_le_beyond _ _

/-- A text in one line has nothing but a second line beyond it. -/
theorem lineAt_of_single (h : '\n' ∉ text.toList) (offset : Nat) :
    (ofString text).lineAt offset = if offset ≤ (bytes text).length then 1 else 2 := by
  have hfeed : lineFeed ∉ bytes text := by
    rw [bytes_eq, List.mem_flatMap]
    rintro ⟨c, hc, hmem⟩
    exact lineFeed_notMem_utf8EncodeChar (fun heq => h (heq ▸ hc)) hmem
  split
  · next hle =>
    rw [lineAt_of_le text hle, lineFeedsBefore,
      List.count_eq_zero.mpr fun hmem => hfeed (List.mem_of_mem_take hmem)]
  · next hlt =>
    rw [lineAt_of_lt text (Nat.lt_of_not_le hlt), Lines.beyond]
    by_cases hnil : text.toList = []
    · rw [ranges_ofString_of_nil text hnil]
      rfl
    · have hpos : 0 < 0 + (bytes text).length := by
        rw [length_bytes, Nat.zero_add]
        exact byteLength_pos hnil
      rw [ranges_ofString text hnil, ← List.append_nil (bytes text), rangesOfBytes_append hfeed,
        rangesOfBytes, if_pos hpos]
      rfl

end OfString

/-! ### The look-up as a whole -/

/-- How positions in a text are looked up. Any search by comparison comes to the same line, and so
does the one by halving. -/
structure LookUp (text : String) : Prop where
  follow : FollowFrom 0 (ofString text).ranges
  search : ∀ offset found, Finds (ofString text).ranges offset found →
    (ofString text).lineAt offset = found.elim (ofString text).beyond (· + 1)
  bisected : ∀ offset, Finds (ofString text).ranges offset ((ofString text).bisect offset) ∧
    (ofString text).lineAt offset
      = ((ofString text).bisect offset).elim (ofString text).beyond (· + 1)
  within : ∀ offset ≤ (bytes text).length,
    (ofString text).lineAt offset = 1 + lineFeedsBefore text offset
  beyond : ∀ offset, (bytes text).length < offset →
    (ofString text).lineAt offset = (ofString text).beyond
  monotone : ∀ first second, first ≤ second →
    (ofString text).lineAt first ≤ (ofString text).lineAt second
  listed : ∀ token ∈ Token.stream text, token.listedWithLine (.ofString text)
    = "[line " ++ toString (1 + lineFeedsBefore text token.span.start.toNat) ++ "] "
      ++ token.listed

/-- The line of an offset is one more than the line feeds before it, and behind the end of the text
it is the line beyond the table. -/
theorem lookUp_ofString {text : String} (hsize : (bytes text).length < 2 ^ 32 - 1) :
    LookUp text where
  follow := followFrom_ofString text
  search _ _ := (followFrom_ofString text).lineAt_eq
  bisected offset :=
    have hfinds := (followFrom_ofString text).finds_bisect offset
    ⟨hfinds, (followFrom_ofString text).lineAt_eq hfinds⟩
  within _ := lineAt_of_le text
  beyond _ := lineAt_of_lt text
  monotone _ _ := lineAt_mono text
  listed token htoken := by
    rw [length_bytes] at hsize
    have htiling := Token.tilesFrom_streamFrom text.toList [] (by simpa using (by omega))
    obtain ⟨piece, ⟨before, after, htext, hstart, -⟩, -⟩ :=
      htiling.exists_slice (by simpa using (by omega)) token htoken
    have hle : token.span.start.toNat ≤ (bytes text).length := by
      rw [length_bytes, ← hstart]
      have := congrArg byteLength htext
      rw [List.nil_append, byteLength_append] at this
      omega
    rw [Token.listedWithLine, tag, lineAt_of_le text hle]

/-- A line feed behind a letter of two bytes, and another one at the end. -/
theorem lookUp_ofString_lines :
    let text := "é\nb\n"
    (bytes text).length < 2 ^ 32 - 1 ∧ LookUp text ∧
      [0, 1, 2, 3, 4, 5, 6].map (ofString text).lineAt = [1, 1, 1, 2, 2, 3, 3] := by
  intro text
  have hsize : (bytes text).length < 2 ^ 32 - 1 := by
    rw [length_bytes]
    decide
  exact ⟨hsize, lookUp_ofString hsize, by decide⟩

end Lines

end Text

end Scriptlet
