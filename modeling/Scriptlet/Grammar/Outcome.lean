import Scriptlet.Grammar.Cursor
import Scriptlet.Grammar.Tree

/-! # Outcomes of reading a phrase

A phrase that is read from a cursor takes at least one token. One that can not be read stops at the
cursor it began from or further on. The outcome carries this, so that whatever is built from phrases
ends.
-/

namespace Scriptlet.Grammar

inductive Outcome (s : Cursor) (α : Type) where
  | ok (value : α) (rest : Cursor) (shorter : rest.size < s.size)
  | fail (error : Error) (rest : Cursor) (within : rest = s ∨ rest.size < s.size)

namespace Outcome

variable {s t : Cursor} {α β : Type}

/-- Goes on from where a phrase that was read ends. -/
def andThen (x : Outcome s α) (f : α → (t : Cursor) → t.size < s.size → Outcome s β) :
    Outcome s β :=
  match x with
  | ok value rest shorter => f value rest shorter
  | fail error rest within => fail error rest within

/-- A phrase that starts further on, seen from `s`. -/
def after (h : t.size < s.size) (x : Outcome t α) : Outcome s α :=
  match x with
  | ok value rest shorter => ok value rest (Nat.lt_trans shorter h)
  | fail error rest within =>
    fail error rest (Or.inr (within.elim (fun same => same ▸ h) (fun shorter => Nat.lt_trans shorter h)))

def map (f : α → β) (x : Outcome s α) : Outcome s β :=
  x.andThen fun value rest shorter => ok (f value) rest shorter

@[simp] theorem ok_andThen (value : α) (rest : Cursor) (shorter : rest.size < s.size)
    (f : α → (t : Cursor) → t.size < s.size → Outcome s β) :
    (ok value rest shorter).andThen f = f value rest shorter := rfl

@[simp] theorem fail_andThen (error : Error) (rest : Cursor)
    (within : rest = s ∨ rest.size < s.size)
    (f : α → (t : Cursor) → t.size < s.size → Outcome s β) :
    (fail error rest within : Outcome s α).andThen f = fail error rest within := rfl

@[simp] theorem after_ok (h : t.size < s.size) (value : α) (rest : Cursor)
    (shorter : rest.size < t.size) :
    (ok value rest shorter).after h = ok value rest (Nat.lt_trans shorter h) := rfl

end Outcome

/-- A way to read a phrase from any cursor with fewer than `n` tokens left. -/
abbrev Reader (n : Nat) (α : Type) := (s : Cursor) → s.size < n → Outcome s α

namespace Cursor

theorem within_self (s : Cursor) : s = s ∨ s.size < s.size :=
  Or.inl rfl

theorem within_of_lt {s t : Cursor} (h : t.size < s.size) : t = s ∨ t.size < s.size :=
  Or.inr h

/-- Takes the upcoming token, which has to be of the given kind. A token of another kind is left. -/
def expect (kind : Token.Kind) (s : Cursor) : Outcome s Token :=
  match h : s.eat? kind with
  | some (token, rest) => .ok token rest (size_of_eat? h)
  | none => .fail (s.unexpected kind) s s.within_self

/-- Takes a name that is bound here. -/
def binder (s : Cursor) : Outcome s (Ident Token) :=
  (s.expect .ident).map fun token => ⟨token, token.literal⟩

end Cursor

end Scriptlet.Grammar
