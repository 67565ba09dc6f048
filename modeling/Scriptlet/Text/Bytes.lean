/-! # Texts measured in bytes

Positions in a text are offsets into its UTF-8 encoding. An offset cuts the text only where it
falls between two characters.
-/

namespace Scriptlet.Text

def byteLength : List Char → Nat
  | [] => 0
  | c :: cs => c.utf8Size + byteLength cs

@[simp] theorem byteLength_nil : byteLength [] = 0 := rfl

@[simp] theorem byteLength_cons (c : Char) (cs : List Char) :
    byteLength (c :: cs) = c.utf8Size + byteLength cs := rfl

@[simp] theorem byteLength_append (cs ds : List Char) :
    byteLength (cs ++ ds) = byteLength cs + byteLength ds := by
  induction cs with
  | nil => simp
  | cons c cs ih => simp [ih, Nat.add_assoc]

theorem byteLength_pos {cs : List Char} (h : cs ≠ []) : 0 < byteLength cs := by
  cases cs with
  | nil => exact absurd rfl h
  | cons c cs =>
    have := c.utf8Size_pos
    simp only [byteLength_cons]
    omega

/-- What follows the first `offset` bytes, if these are whole characters. -/
def fromByte? (offset : Nat) : List Char → Option (List Char)
  | [] => if offset = 0 then some [] else none
  | c :: cs =>
    if offset = 0 then some (c :: cs)
    else if c.utf8Size ≤ offset then fromByte? (offset - c.utf8Size) cs
    else none

theorem fromByte?_zero (cs : List Char) : fromByte? 0 cs = some cs := by
  cases cs <;> simp [fromByte?]

theorem fromByte?_byteLength_append (cs ds : List Char) :
    fromByte? (byteLength cs) (cs ++ ds) = some ds := by
  induction cs with
  | nil => exact fromByte?_zero ds
  | cons c cs ih =>
    have := c.utf8Size_pos
    have hne : c.utf8Size + byteLength cs ≠ 0 := by omega
    have hle : c.utf8Size ≤ c.utf8Size + byteLength cs := Nat.le_add_right _ _
    have hsub : c.utf8Size + byteLength cs - c.utf8Size = byteLength cs := by omega
    simp only [List.cons_append, byteLength_cons, fromByte?, if_neg hne, if_pos hle, hsub, ih]

theorem fromByte?_eq_some_iff {offset : Nat} {cs rest : List Char} :
    fromByte? offset cs = some rest ↔ ∃ before, cs = before ++ rest ∧ byteLength before = offset := by
  constructor
  · intro h
    induction cs generalizing offset with
    | nil =>
      simp only [fromByte?] at h
      split at h
      · next hzero =>
        cases h
        exact ⟨[], rfl, hzero.symm⟩
      · cases h
    | cons c cs ih =>
      simp only [fromByte?] at h
      split at h
      · next hzero =>
        cases h
        exact ⟨[], rfl, hzero.symm⟩
      · split at h
        · next hle =>
          obtain ⟨before, rfl, hlen⟩ := ih h
          exact ⟨c :: before, rfl, by simp only [byteLength_cons]; omega⟩
        · cases h
  · rintro ⟨before, rfl, rfl⟩
    exact fromByte?_byteLength_append before rest

end Scriptlet.Text
