import Scriptlet.Text.Bytes

/-! # Lines of a text

The table of lines that reports look positions up in. A line is the range of byte offsets up to and
including its line feed. A last line without a line feed reaches one past the end of the text, so
that the end of input lies on it; after a final line feed the end of input lies on no line of the
table and counts as one line further.
-/

namespace Scriptlet.Text

structure Lines where
  ranges : List (Nat × Nat)

namespace Lines

/-- The lines of a text whose first character stands at `here`, in a line that began at `start`. -/
def rangesFrom (start here : Nat) : List Char → List (Nat × Nat)
  | [] => if start < here then [(start, here + 1)] else []
  | c :: cs =>
    if c = '\n' then (start, here + 1) :: rangesFrom (here + 1) (here + 1) cs
    else rangesFrom start (here + c.utf8Size) cs

def ofText (cs : List Char) : Lines :=
  if cs.isEmpty then ⟨[(0, 1)]⟩ else ⟨rangesFrom 0 0 cs⟩

def ofString (text : String) : Lines :=
  ofText text.toList

/-- The number given to every offset beyond the table. -/
def beyond (lines : Lines) : Nat :=
  lines.ranges.length + 1

/-- The number of the line that holds an offset, counted from one. -/
def lineAt (lines : Lines) (offset : Nat) : Nat :=
  match lines.ranges.findIdx? fun range => range.1 ≤ offset && offset < range.2 with
  | some index => index + 1
  | none => lines.beyond

/-- The line of an offset, as it stands in front of listings and reports. -/
def tag (lines : Lines) (offset : Nat) : String :=
  "[line " ++ toString (lines.lineAt offset) ++ "] "

theorem one_le_lineAt (lines : Lines) (offset : Nat) : 1 ≤ lines.lineAt offset := by
  simp only [lineAt, beyond]
  split <;> omega

theorem lineAt_le_beyond (lines : Lines) (offset : Nat) : lines.lineAt offset ≤ lines.beyond := by
  simp only [lineAt, beyond]
  split
  · next index h =>
    have := (List.findIdx?_eq_some_iff_getElem.mp h).1
    omega
  · exact Nat.le_refl _

end Lines

end Scriptlet.Text
