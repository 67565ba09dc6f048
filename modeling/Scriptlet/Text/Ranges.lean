/-! # Sets of code points

A property of characters is stored as an ascending list of closed ranges of code points.
Membership stops at the first range that starts above the code point.
-/

namespace Scriptlet.Text

abbrev Ranges := List (Nat × Nat)

namespace Ranges

def contains : Ranges → Nat → Bool
  | [], _ => false
  | (low, high) :: rest, n => if n < low then false else n ≤ high || contains rest n

/-- No range is empty, and each starts above everything before it. -/
def AscendingFrom : Nat → Ranges → Prop
  | _, [] => True
  | bound, (low, high) :: rest => bound ≤ low ∧ low ≤ high ∧ AscendingFrom (high + 1) rest

def Ascending (ranges : Ranges) : Prop :=
  AscendingFrom 0 ranges

instance decidableAscendingFrom : (bound : Nat) → (ranges : Ranges) →
    Decidable (AscendingFrom bound ranges)
  | _, [] => isTrue trivial
  | bound, (low, high) :: rest =>
    have := decidableAscendingFrom (high + 1) rest
    inferInstanceAs (Decidable (bound ≤ low ∧ low ≤ high ∧ AscendingFrom (high + 1) rest))

instance (ranges : Ranges) : Decidable ranges.Ascending :=
  decidableAscendingFrom 0 ranges

theorem AscendingFrom.le {bound : Nat} {ranges : Ranges} (h : AscendingFrom bound ranges)
    {r : Nat × Nat} (hr : r ∈ ranges) : bound ≤ r.1 := by
  induction ranges generalizing bound with
  | nil => cases hr
  | cons head rest ih =>
    obtain ⟨hbound, hle, hrest⟩ := h
    rcases List.mem_cons.mp hr with rfl | hr
    · exact hbound
    · have := ih hrest hr
      omega

theorem AscendingFrom.contains_iff {bound : Nat} {ranges : Ranges} (h : AscendingFrom bound ranges)
    (n : Nat) : ranges.contains n = true ↔ ∃ r ∈ ranges, r.1 ≤ n ∧ n ≤ r.2 := by
  induction ranges generalizing bound with
  | nil => simp [contains]
  | cons head rest ih =>
    obtain ⟨_, hle, hrest⟩ := h
    simp only [contains]
    split
    · next hn =>
      constructor
      · intro h
        cases h
      · rintro ⟨r, hr, hlow, _⟩
        rcases List.mem_cons.mp hr with rfl | hr
        · exact absurd hlow (Nat.not_le.mpr hn)
        · have := hrest.le hr
          omega
    · next hn =>
      rw [Bool.or_eq_true, ih hrest, decide_eq_true_eq]
      constructor
      · rintro (hhigh | ⟨r, hr, hin⟩)
        · exact ⟨head, List.mem_cons_self, Nat.not_lt.mp hn, hhigh⟩
        · exact ⟨r, List.mem_cons_of_mem _ hr, hin⟩
      · rintro ⟨r, hr, hin⟩
        rcases List.mem_cons.mp hr with rfl | hr
        · exact Or.inl hin.2
        · exact Or.inr ⟨r, hr, hin⟩

theorem contains_iff {ranges : Ranges} (h : ranges.Ascending) (n : Nat) :
    ranges.contains n = true ↔ ∃ r ∈ ranges, r.1 ≤ n ∧ n ≤ r.2 :=
  AscendingFrom.contains_iff h n

end Ranges

end Scriptlet.Text
