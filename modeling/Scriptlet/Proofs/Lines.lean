import Scriptlet.Text.Lines

/-! # The number of a line

The line of an offset within a text is found by counting the line feeds in front of it. At the end
of the text this is so too, whether the text ends with a line feed or not.
-/

namespace Scriptlet.Text.Lines

def holds (offset : Nat) (range : Nat × Nat) : Bool :=
  range.1 ≤ offset && offset < range.2

theorem lineAt_eq_findIdx (lines : Lines) (offset : Nat) :
    lines.lineAt offset = lines.ranges.findIdx (holds offset) + 1 := by
  have hsome : ∀ index, lines.ranges.findIdx? (holds offset) = some index →
      lines.ranges.findIdx (holds offset) = index := by
    intro index hindex
    rw [List.findIdx?_eq_guard_findIdx_lt, Option.guard_eq_some_iff] at hindex
    exact hindex.1
  have hnone : lines.ranges.findIdx? (holds offset) = none →
      lines.ranges.findIdx (holds offset) = lines.ranges.length :=
    fun h => List.findIdx_eq_length.mpr (List.findIdx?_eq_none_iff.mp h)
  unfold lineAt beyond
  split
  · next index hindex => rw [hsome index hindex]
  · next hindex => rw [hnone hindex]

/-- The line that a text begins in holds what stands in it before the text. -/
theorem findIdx_rangesFrom_of_lt (cs : List Char) {start here offset : Nat}
    (hstart : start ≤ offset) (hlt : offset < here) :
    (rangesFrom start here cs).findIdx (holds offset) = 0 := by
  induction cs generalizing here with
  | nil =>
    have hline : start < here := Nat.lt_of_le_of_lt hstart hlt
    simp [rangesFrom, hline, List.findIdx_cons, holds, hstart, Nat.lt_succ_of_lt hlt]
  | cons c cs ih =>
    simp only [rangesFrom]
    split
    · simp [List.findIdx_cons, holds, hstart, Nat.lt_succ_of_lt hlt]
    · exact ih (Nat.lt_of_lt_of_le hlt (Nat.le_add_right _ _))

theorem findIdx_rangesFrom (before after : List Char) {start here : Nat} (hstart : start ≤ here) :
    (rangesFrom start here (before ++ after)).findIdx (holds (here + byteLength before))
      = before.count '\n' := by
  induction before generalizing start here with
  | nil =>
    cases after with
    | nil =>
      simp only [List.append_nil, rangesFrom, byteLength_nil, Nat.add_zero, List.count_nil]
      split
      · simp [List.findIdx_cons, holds, hstart]
      · rfl
    | cons c cs =>
      simp only [List.nil_append, rangesFrom, byteLength_nil, Nat.add_zero, List.count_nil]
      split
      · simp [List.findIdx_cons, holds, hstart]
      · have := c.utf8Size_pos
        exact findIdx_rangesFrom_of_lt cs hstart (by omega)
  | cons c before ih =>
    simp only [List.cons_append, rangesFrom, byteLength_cons]
    by_cases hc : c = '\n'
    · subst hc
      have hsize : '\n'.utf8Size = 1 := by decide
      have hbeyond : holds (here + 1 + byteLength before) (start, here + 1) = false := by
        simp only [holds, Bool.and_eq_false_iff, decide_eq_false_iff_not]
        omega
      rw [if_pos rfl, hsize, ← Nat.add_assoc, List.findIdx_cons, hbeyond, ih (Nat.le_refl _),
        List.count_cons_self]
      rfl
    · rw [if_neg hc, ← Nat.add_assoc, ih (by omega), List.count_cons_of_ne hc]

/-- The line of an offset between two characters is one more than the line feeds before it. -/
theorem lineAt_ofText (before after : List Char) :
    (ofText (before ++ after)).lineAt (byteLength before) = 1 + before.count '\n' := by
  have hfirst : holds 0 (0, 1) = true := by decide
  have hfind := findIdx_rangesFrom before after (Nat.le_refl 0)
  rw [Nat.zero_add] at hfind
  rw [lineAt_eq_findIdx, Nat.add_comm 1, ofText]
  split
  · next hempty =>
    obtain ⟨rfl, rfl⟩ := List.append_eq_nil_iff.mp (List.isEmpty_iff.mp hempty)
    simp [List.findIdx_cons, hfirst]
  · rw [hfind]

example : (ofText "a\n\né".toList).lineAt 3 = 3 := by decide

end Scriptlet.Text.Lines
