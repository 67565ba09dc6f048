/-! # Rows of a text

The rows in which a text is shown. A row ends with a line terminator of any kind, which belongs to
it; carriage return and line feed are one terminator together. No empty row follows the last
terminator, and an empty text is one empty row.
-/

namespace Scriptlet.Text

/-- A row and the number of characters before it. -/
structure Row where
  offset : Nat
  chars : List Char

def isTerminator (c : Char) : Bool :=
  ['\n', '\r', '\x0b', '\x0c', '\u0085', '\u2028', '\u2029'].contains c

/-- The pieces of a text up to and including each terminator. -/
def pieces : List Char → List (List Char)
  | [] => []
  | '\r' :: '\n' :: rest => ['\r', '\n'] :: pieces rest
  | c :: rest =>
    if isTerminator c then [c] :: pieces rest
    else
      match pieces rest with
      | [] => [[c]]
      | piece :: others => (c :: piece) :: others

theorem flatten_pieces (cs : List Char) : (pieces cs).flatten = cs := by
  fun_induction pieces cs with
  | case1 => rfl
  | case2 rest ih => simp [ih]
  | case3 c rest _ hterm ih => simp [ih]
  | case4 c rest _ hterm hnil ih =>
    rw [hnil] at ih
    simp [← ih]
  | case5 c rest _ hterm piece others hcons ih =>
    rw [hcons] at ih
    simp [← ih]

def rowsFrom (offset : Nat) : List (List Char) → List Row
  | [] => []
  | piece :: rest => ⟨offset, piece⟩ :: rowsFrom (offset + piece.length) rest

def rows (cs : List Char) : List Row :=
  if cs.isEmpty then [⟨0, []⟩] else rowsFrom 0 (pieces cs)

/-- The index of the last row that starts at or before a character. -/
def rowOf (rows : List Row) (position : Nat) : Nat :=
  (rows.takeWhile (·.offset ≤ position)).length - 1

end Scriptlet.Text
