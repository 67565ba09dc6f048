import Scriptlet.Grammar.Error
import Scriptlet.Token.Scan

/-! # Cursors

A cursor is a place in a token stream: the tokens that are left and the number of braces that the
tokens before it have left open. Steps forward leave fewer tokens.
-/

namespace Scriptlet.Grammar

structure Cursor where
  tokens : List Token
  depth : Nat

namespace Cursor

def ofSource (source : String) : Cursor :=
  ⟨Token.stream source, 0⟩

def size (s : Cursor) : Nat :=
  s.tokens.length

def peek? (s : Cursor) : Option Token :=
  s.tokens.head?

def kind? (s : Cursor) : Option Token.Kind :=
  s.peek?.map (·.kind)

/-- Whether nothing but the end of input is left. -/
def atEnd (s : Cursor) : Bool :=
  s.kind?.getD .eof == .eof

/-- The upcoming token and the cursor after it. -/
def next? (s : Cursor) : Option (Token × Cursor) :=
  match s.tokens with
  | [] => none
  | token :: rest => some (token, ⟨rest, token.kind.depthAfter s.depth⟩)

/-- The upcoming token and the cursor after it, if the token is of the given kind. -/
def eat? (kind : Token.Kind) (s : Cursor) : Option (Token × Cursor) :=
  s.next?.filter (·.1.kind = kind)

/-- The cursor after the upcoming token if that is of the given kind, and the same cursor if not. -/
def skip (kind : Token.Kind) (s : Cursor) : Cursor :=
  ((s.eat? kind).map (·.2)).getD s

/-- The error that the upcoming token is not of the kind that belongs here. There always is one, as
no step from the start of a source leads past its end of input: the span without a token only makes
the definition total, and does not stand for the end of a source. -/
def unexpected (s : Cursor) (expected : Token.Kind) : Error where
  problem := .unexpected expected s.kind?
  span := (s.peek?.map (·.span)).getD (.ofBounds 0 0)

theorem size_of_next? {s t : Cursor} {token : Token} (h : s.next? = some (token, t)) :
    s.size = t.size + 1 := by
  obtain ⟨tokens, depth⟩ := s
  cases tokens with
  | nil => cases h
  | cons head rest => cases h; rfl

theorem size_lt_of_next? {s t : Cursor} {token : Token} (h : s.next? = some (token, t)) :
    t.size < s.size :=
  size_of_next? h ▸ Nat.lt_succ_self t.size

theorem peek?_of_next? {s t : Cursor} {token : Token} (h : s.next? = some (token, t)) :
    s.peek? = some token := by
  obtain ⟨tokens, depth⟩ := s
  cases tokens with
  | nil => cases h
  | cons head rest => cases h; rfl

theorem eat?_eq_some_iff {kind : Token.Kind} {s t : Cursor} {token : Token} :
    s.eat? kind = some (token, t) ↔ s.next? = some (token, t) ∧ token.kind = kind := by
  simp only [eat?, Option.filter_eq_some_iff, decide_eq_true_eq]

theorem size_of_eat? {kind : Token.Kind} {s t : Cursor} {token : Token}
    (h : s.eat? kind = some (token, t)) : t.size < s.size :=
  size_lt_of_next? (eat?_eq_some_iff.mp h).1

theorem size_skip_le (kind : Token.Kind) (s : Cursor) : (s.skip kind).size ≤ s.size := by
  unfold skip
  cases h : s.eat? kind with
  | none => exact Nat.le_refl _
  | some step => exact Nat.le_of_lt (size_of_eat? h)

end Cursor

end Scriptlet.Grammar
