/-! # Ordered entries

A finite map as a list of its entries in ascending order of their keys. Looking up after an
insertion gives the inserted value at its key and the old value at any other key; ascending lists
with the same values at all keys are equal.
-/

namespace Scriptlet.Entries

variable {κ β : Type} [Ord κ]

/-- Puts an entry in its place. It takes the place of an entry with the same key. -/
def insert (key : κ) (value : β) : List (κ × β) → List (κ × β)
  | [] => [(key, value)]
  | (k, v) :: rest =>
    match compare key k with
    | .lt => (key, value) :: (k, v) :: rest
    | .eq => (key, value) :: rest
    | .gt => (k, v) :: insert key value rest

def find? (key : κ) : List (κ × β) → Option β
  | [] => none
  | (k, v) :: rest => if compare key k = .eq then some v else find? key rest

def keys (entries : List (κ × β)) : List κ :=
  entries.map (·.1)

/-- The keys strictly ascend. -/
def Ascending (entries : List (κ × β)) : Prop :=
  entries.Pairwise fun first second => compare first.1 second.1 = .lt

theorem mem_insert {key : κ} {value : β} {entries : List (κ × β)} {entry : κ × β}
    (h : entry ∈ insert key value entries) : entry = (key, value) ∨ entry ∈ entries := by
  induction entries with
  | nil => exact Or.inl (List.mem_singleton.mp h)
  | cons head rest ih =>
    obtain ⟨k, v⟩ := head
    simp only [insert] at h
    split at h
    · exact List.mem_cons.mp h
    · rcases List.mem_cons.mp h with h | h
      · exact Or.inl h
      · exact Or.inr (List.mem_cons_of_mem _ h)
    · rcases List.mem_cons.mp h with h | h
      · exact Or.inr (h ▸ List.mem_cons_self)
      · exact (ih h).imp id (List.mem_cons_of_mem _)

variable [Std.LawfulEqOrd κ]

theorem find?_insert (key other : κ) (value : β) (entries : List (κ × β)) :
    find? other (insert key value entries)
      = if compare other key = .eq then some value else find? other entries := by
  induction entries with
  | nil => rfl
  | cons entry rest ih =>
    obtain ⟨k, v⟩ := entry
    simp only [insert]
    split
    · rfl
    · next heq =>
      cases Std.LawfulEqOrd.eq_of_compare heq
      simp only [find?]
      split <;> rfl
    · next hgt =>
      simp only [find?, ih]
      by_cases hk : compare other k = .eq
      · cases Std.LawfulEqOrd.eq_of_compare hk
        have hne : compare other key ≠ .eq := by
          intro heq
          cases Std.LawfulEqOrd.eq_of_compare heq
          rw [hk] at hgt
          cases hgt
        rw [if_pos hk, if_neg hne, if_pos hk]
      · rw [if_neg hk, if_neg hk]

variable [Std.TransOrd κ]

theorem Ascending.insert {entries : List (κ × β)} (h : Ascending entries) (key : κ) (value : β) :
    Ascending (insert key value entries) := by
  induction entries with
  | nil => exact List.pairwise_singleton _ _
  | cons head rest ih =>
    obtain ⟨k, v⟩ := head
    obtain ⟨hhead, hrest⟩ := List.pairwise_cons.mp h
    simp only [Entries.insert]
    split
    · next hlt =>
      refine List.pairwise_cons.mpr ⟨?_, h⟩
      intro entry hentry
      rcases List.mem_cons.mp hentry with rfl | hentry
      · exact hlt
      · exact Std.TransCmp.lt_trans hlt (hhead entry hentry)
    · next heq =>
      cases Std.LawfulEqOrd.eq_of_compare heq
      exact List.pairwise_cons.mpr ⟨hhead, hrest⟩
    · next hgt =>
      refine List.pairwise_cons.mpr ⟨?_, ih hrest⟩
      intro entry hentry
      rcases mem_insert hentry with rfl | hentry
      · exact Std.OrientedCmp.lt_of_gt hgt
      · exact hhead entry hentry

theorem find?_of_mem {entries : List (κ × β)} (h : Ascending entries) {entry : κ × β}
    (hentry : entry ∈ entries) : find? entry.1 entries = some entry.2 := by
  induction entries with
  | nil => cases hentry
  | cons head rest ih =>
    obtain ⟨hhead, hrest⟩ := List.pairwise_cons.mp h
    simp only [find?]
    rcases List.mem_cons.mp hentry with rfl | hentry
    · rw [if_pos (Std.ReflCmp.compare_self : compare entry.1 entry.1 = .eq)]
    · have hlt := hhead entry hentry
      have hne : compare entry.1 head.1 ≠ .eq := by
        intro heq
        rw [Std.OrientedCmp.eq_comm.mp heq] at hlt
        cases hlt
      rw [if_neg hne, ih hrest hentry]

end Scriptlet.Entries
