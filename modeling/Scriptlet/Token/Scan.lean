import Scriptlet.Text.Blank
import Scriptlet.Token.Basic
import Scriptlet.Token.Lexeme

/-! # Scanning

A reading is one token together with the place where scanning goes on. The stream of a source is
the chain of readings from its start; its last token, and no other, marks the end of input.
-/

namespace Scriptlet.Token

structure Reading where
  token : Token
  /-- The offset one past the token. -/
  next : Nat
  /-- The text from `next` on. -/
  rest : List Char

/-- The first token of a text that starts at `offset`. -/
def read (offset : Nat) (cs : List Char) : Reading :=
  let start := offset + Text.byteLength (cs.takeWhile Text.isBlank)
  match cs.dropWhile Text.isBlank with
  | [] => ⟨.eofAt start, start, []⟩
  | c :: cs =>
    let lexeme := Lexeme.read c cs
    let stop := start + Text.byteLength lexeme.covered
    ⟨⟨lexeme.kind, String.ofList lexeme.literal, .ofBounds start stop⟩, stop, lexeme.rest⟩

theorem length_rest_read_lt {offset : Nat} {cs : List Char}
    (h : (read offset cs).token.kind ≠ .eof) : (read offset cs).rest.length < cs.length := by
  have hle := (List.dropWhile_sublist Text.isBlank (l := cs)).length_le
  unfold read at h ⊢
  split
  · next hnil => simp [hnil, eofAt] at h
  · next c rest hcons =>
    rw [hcons, List.length_cons] at hle
    exact Nat.lt_of_le_of_lt (Lexeme.length_rest_read_le c rest) hle

/-- The tokens of a text that starts at `offset`. -/
def streamFrom (offset : Nat) (cs : List Char) : List Token :=
  let reading := read offset cs
  if h : reading.token.kind = .eof then [reading.token]
  else
    have := length_rest_read_lt h
    reading.token :: streamFrom reading.next reading.rest
termination_by cs.length

def stream (source : String) : List Token :=
  streamFrom 0 source.toList

/-- The token at or after a byte offset of the source, and the offset to go on from. An offset beyond
the end, or inside a character, has only the end of input after it. -/
def scan (source : String) (offset : Nat) : Token × Nat :=
  match Text.fromByte? offset source.toList with
  | some rest =>
    let reading := read offset rest
    (reading.token, reading.next)
  | none =>
    let place := min offset (Text.byteLength source.toList)
    (.eofAt place, place)

end Scriptlet.Token
