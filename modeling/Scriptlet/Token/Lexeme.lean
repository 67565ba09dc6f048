import Scriptlet.Text.Alphabetic
import Scriptlet.Token.Kind

/-! # Lexemes

The lexeme at the front of a text, read without regard to where the text stands in the source.
The characters that the lexeme covers and those that it leaves make up the text.
-/

namespace Scriptlet.Token

structure Lexeme where
  kind : Kind
  literal : List Char
  covered : List Char
  rest : List Char

namespace Lexeme

def isWordChar (c : Char) : Bool :=
  Text.isAlphabetic c || c == '_'

/-- A lexeme that is its own literal. -/
def plain (kind : Kind) (covered rest : List Char) : Lexeme :=
  ⟨kind, covered, covered, rest⟩

/-- An operator that means something else when `=` follows. -/
def maybeEqual (alone withEqual : Kind) (c : Char) : List Char → Lexeme
  | '=' :: rest => plain withEqual [c, '='] rest
  | rest => plain alone [c] rest

/-- The string that an opening quote starts. It has no escapes, and without a closing quote it takes
the rest of the text. -/
def string (cs : List Char) : Lexeme :=
  let body := cs.takeWhile (· != '"')
  match cs.dropWhile (· != '"') with
  | [] => ⟨.string, body, '"' :: body, []⟩
  | quote :: rest => ⟨.string, body, '"' :: (body ++ [quote]), rest⟩

def word (cs : List Char) : Lexeme :=
  let letters := cs.takeWhile isWordChar
  plain (.ofWord (String.ofList letters)) letters (cs.dropWhile isWordChar)

def integer (cs : List Char) : Lexeme :=
  plain .int (cs.takeWhile Char.isDigit) (cs.dropWhile Char.isDigit)

/-- The lexeme that starts with the character `c`, which is not blank. -/
def read (c : Char) (cs : List Char) : Lexeme :=
  match Kind.ofMark? c with
  | some kind => plain kind [c] cs
  | none =>
    if c = '=' then maybeEqual .assign .equal c cs
    else if c = '!' then maybeEqual .bang .notEqual c cs
    else if c = '"' then string cs
    else if isWordChar c then word (c :: cs)
    else if c.isDigit then integer (c :: cs)
    else plain .illegal [c] cs

theorem maybeEqual_covered_append_rest (alone withEqual : Kind) (c : Char) (cs : List Char) :
    (maybeEqual alone withEqual c cs).covered ++ (maybeEqual alone withEqual c cs).rest
      = c :: cs := by
  unfold maybeEqual
  split <;> rfl

theorem string_covered_append_rest (cs : List Char) :
    (string cs).covered ++ (string cs).rest = '"' :: cs := by
  have hsplit := List.takeWhile_append_dropWhile (p := (· != '"')) (l := cs)
  simp only [string]
  split
  · next h =>
    rw [h, List.append_nil] at hsplit
    simp only [List.append_nil, hsplit]
  · next quote rest h =>
    rw [h] at hsplit
    simp only [List.cons_append, List.append_assoc, List.nil_append, hsplit]

theorem read_covered_append_rest (c : Char) (cs : List Char) :
    (read c cs).covered ++ (read c cs).rest = c :: cs := by
  unfold read
  split
  · rfl
  · split
    · exact maybeEqual_covered_append_rest _ _ c cs
    · split
      · exact maybeEqual_covered_append_rest _ _ c cs
      · split
        · next h => rw [h]; exact string_covered_append_rest cs
        · split
          · exact List.takeWhile_append_dropWhile
          · split
            · exact List.takeWhile_append_dropWhile
            · rfl

theorem read_covered_ne_nil (c : Char) (cs : List Char) : (read c cs).covered ≠ [] := by
  unfold read
  split
  · exact List.cons_ne_nil _ _
  · split
    · unfold maybeEqual; split <;> exact List.cons_ne_nil _ _
    · split
      · unfold maybeEqual; split <;> exact List.cons_ne_nil _ _
      · split
        · simp only [string]; split <;> exact List.cons_ne_nil _ _
        · split
          · next h => simp [word, plain, h]
          · split
            · next h => simp [integer, plain, h]
            · exact List.cons_ne_nil _ _

theorem length_rest_read_le (c : Char) (cs : List Char) : (read c cs).rest.length ≤ cs.length := by
  have hlength := congrArg List.length (read_covered_append_rest c cs)
  have hpos := List.length_pos_iff.mpr (read_covered_ne_nil c cs)
  simp only [List.length_append, List.length_cons] at hlength
  omega

end Lexeme

end Scriptlet.Token
