import Scriptlet.Grammar.Expression

/-! # Facts on outcomes

What holds of a phrase wherever it could be read, and what its reading leaves, is built up along the
combinators that the phrase is read by.
-/

namespace Scriptlet.Grammar.Outcome

variable {s t : Cursor} {α β γ : Type}

theorem andThen_assoc (x : Outcome s α) (f : α → (t : Cursor) → t.size < s.size → Outcome s β)
    (g : β → (t : Cursor) → t.size < s.size → Outcome s γ) :
    (x.andThen f).andThen g = x.andThen fun value t ht => (f value t ht).andThen g := by
  cases x <;> rfl

@[simp] theorem andThen_ok (x : Outcome s α) : (x.andThen fun value t ht => ok value t ht) = x := by
  cases x <;> rfl

theorem map_andThen (f : α → β) (x : Outcome s α)
    (g : β → (t : Cursor) → t.size < s.size → Outcome s γ) :
    (x.map f).andThen g = x.andThen fun value t ht => g (f value) t ht := by
  cases x <;> rfl

theorem after_map (f : α → β) (x : Outcome t α) (h : t.size < s.size) :
    (x.map f).after h = (x.after h).map f := by
  cases x <;> rfl

theorem after_after {u : Cursor} (x : Outcome u α) (hu : u.size < t.size) (ht : t.size < s.size) :
    (x.after hu).after ht = x.after (Nat.lt_trans hu ht) := by
  cases x <;> rfl

theorem after_andThen {x : Outcome t α} (h : t.size < s.size)
    {f : α → (u : Cursor) → u.size < s.size → Outcome s β}
    {g : α → (u : Cursor) → u.size < t.size → Outcome t β}
    (hfg : ∀ value u hu, f value u (Nat.lt_trans hu h) = (g value u hu).after h) :
    (x.after h).andThen f = (x.andThen g).after h := by
  cases x with
  | ok value rest shorter => exact hfg value rest shorter
  | fail error rest within => rfl

/-- Where a phrase could be read, its value and the cursor behind it are related in this way. -/
def Ends (P : α → Cursor → Prop) (x : Outcome s α) : Prop :=
  ∀ value rest shorter, x = .ok value rest shorter → P value rest

variable {P : α → Cursor → Prop} {Q : β → Cursor → Prop}

theorem ends_ok {value : α} {rest : Cursor} (shorter : rest.size < s.size) (h : P value rest) :
    (ok value rest shorter : Outcome s α).Ends P := by
  intro value' rest' shorter' heq
  cases heq
  exact h

theorem ends_fail {error : Error} {rest : Cursor} (within : rest = s ∨ rest.size < s.size) :
    (fail error rest within : Outcome s α).Ends P := by
  intro value rest shorter heq
  cases heq

theorem Ends.andThen {x : Outcome s α} {f : α → (t : Cursor) → t.size < s.size → Outcome s β}
    (hx : x.Ends P) (hf : ∀ value t ht, P value t → (f value t ht).Ends Q) :
    (x.andThen f).Ends Q := by
  cases x with
  | ok value rest shorter => exact hf value rest shorter (hx value rest shorter rfl)
  | fail error rest within => exact ends_fail within

theorem Ends.andThen_congr {x : Outcome s α}
    {f g : α → (t : Cursor) → t.size < s.size → Outcome s β} (hx : x.Ends P)
    (hfg : ∀ value t ht, P value t → f value t ht = g value t ht) :
    x.andThen f = x.andThen g := by
  cases x with
  | ok value rest shorter => exact hfg value rest shorter (hx value rest shorter rfl)
  | fail error rest within => rfl

theorem Ends.after {x : Outcome t α} (hx : x.Ends P) (h : t.size < s.size) :
    (x.after h).Ends P := by
  cases x with
  | ok value rest shorter => exact ends_ok _ (hx value rest shorter rfl)
  | fail error rest within => exact ends_fail _

theorem Ends.map {f : α → β} {x : Outcome s α} (hx : x.Ends P)
    (hf : ∀ value t, P value t → Q (f value) t) : (x.map f).Ends Q :=
  hx.andThen fun value t ht h => ends_ok ht (hf value t h)

end Scriptlet.Grammar.Outcome
