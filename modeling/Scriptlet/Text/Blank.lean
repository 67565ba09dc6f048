import Scriptlet.Text.Ranges

/-! # Blank characters

The Unicode property White_Space. It includes the no-break spaces and the line and paragraph
separators, and leaves out the zero-width characters.
-/

namespace Scriptlet.Text

namespace Blank

def ranges : Ranges :=
  [(0x9, 0xd), (0x20, 0x20), (0x85, 0x85), (0xa0, 0xa0), (0x1680, 0x1680), (0x2000, 0x200a),
   (0x2028, 0x2029), (0x202f, 0x202f), (0x205f, 0x205f), (0x3000, 0x3000)]

theorem ranges_ascending : ranges.Ascending := by decide

end Blank

def isBlank (c : Char) : Bool :=
  Blank.ranges.contains c.toNat

theorem isBlank_iff (c : Char) :
    isBlank c = true ↔ ∃ r ∈ Blank.ranges, r.1 ≤ c.toNat ∧ c.toNat ≤ r.2 :=
  Ranges.contains_iff Blank.ranges_ascending c.toNat

/-- Drops the blank characters at the end of a text. -/
def trimEnd (cs : List Char) : List Char :=
  (cs.reverse.dropWhile isBlank).reverse

theorem isBlank_of_isWhitespace {c : Char} (h : c.isWhitespace = true) : isBlank c = true := by
  simp only [Char.isWhitespace, Bool.or_eq_true, decide_eq_true_eq] at h
  rcases h with ((rfl | rfl) | rfl) | rfl <;> decide

end Scriptlet.Text
