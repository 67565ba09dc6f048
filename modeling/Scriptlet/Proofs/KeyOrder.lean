import Mathlib.Tactic.SplitIfs
import Scriptlet.Value.Basic

/-! # The order of keys

Integers come first and in the order of their values, then false and true, and then strings in the
order of their bytes. Strings are compared by characters, which comes to the same: a greater
character has greater bytes, whatever stands behind it.
-/

namespace Scriptlet

namespace Text

open String

theorem ofNat_cons_lt_iff {m n : Nat} (hm : m < 256) (hn : n < 256) (xs ys : List UInt8) :
    UInt8.ofNat m :: xs < UInt8.ofNat n :: ys ↔ m < n ∨ m = n ∧ xs < ys := by
  rw [List.cons_lt_cons_iff, UInt8.lt_iff_toNat_lt, ← UInt8.toNat_inj,
    UInt8.toNat_ofNat_of_lt' hm, UInt8.toNat_ofNat_of_lt' hn]

theorem utf8EncodeChar_append_lt {c d : Char} (h : c < d) (xs ys : List UInt8) :
    utf8EncodeChar c ++ xs < utf8EncodeChar d ++ ys := by
  have hlt : c.val.toNat < d.val.toNat := h
  have hd : d.val.toNat < 1114112 := d.valid.elim (fun h => by omega) fun h => h.2
  unfold utf8EncodeChar
  generalize c.val.toNat = m at *
  generalize d.val.toNat = n at *
  -- Bytes behind the first one are digits to the base 64, which decide from the greatest one on.
  have hsecond : m / 64 < n / 64 → m / 4096 < n / 4096 ∨
      m / 4096 = n / 4096 ∧ m / 64 % 64 < n / 64 % 64 := by omega
  have hthird : m / 4096 < n / 4096 → m / 262144 < n / 262144 ∨
      m / 262144 = n / 262144 ∧ m / 4096 % 64 < n / 4096 % 64 := by omega
  have hm : m / 262144 % 8 = m / 262144 := Nat.mod_eq_of_lt (by omega)
  have hn : n / 262144 % 8 = n / 262144 := Nat.mod_eq_of_lt (by omega)
  dsimp only
  rw [hm, hn]
  split_ifs <;> simp (disch := omega) only [List.cons_append, List.nil_append, ofNat_cons_lt_iff]
    <;> omega

theorem flatMap_utf8EncodeChar_lt {s t : List Char} (h : s < t) :
    s.flatMap utf8EncodeChar < t.flatMap utf8EncodeChar := by
  induction s generalizing t with
  | nil =>
    cases t with
    | nil => cases h
    | cons d t =>
      obtain ⟨first, rest, hd⟩ := List.exists_cons_of_ne_nil (utf8EncodeChar_ne_nil (c := d))
      rw [List.flatMap_nil, List.flatMap_cons, hd]
      exact List.nil_lt_cons first _
  | cons c s ih =>
    cases t with
    | nil => cases h
    | cons d t =>
      rw [List.flatMap_cons, List.flatMap_cons]
      rcases List.cons_lt_cons_iff.mp h with hlt | ⟨rfl, hlt⟩
      · exact utf8EncodeChar_append_lt hlt _ _
      · exact List.append_left_lt (ih hlt)

/-- The bytes of a text. -/
def bytes (text : String) : List UInt8 :=
  text.toByteArray.data.toList

theorem bytes_eq (text : String) : bytes text = text.toList.flatMap utf8EncodeChar := by
  conv => lhs; rw [← String.ofList_toList (s := text)]
  rw [bytes, String.toByteArray_ofList, List.utf8Encode, List.toList_data_toByteArray]

theorem bytes_lt_iff (s t : String) : bytes s < bytes t ↔ s < t := by
  rw [bytes_eq, bytes_eq, String.lt_iff]
  refine ⟨fun h => ?_, flatMap_utf8EncodeChar_lt⟩
  rcases Std.lt_trichotomy s.toList t.toList with hlt | heq | hgt
  · exact hlt
  · rw [heq] at h
    exact absurd h (List.lt_irrefl _)
  · exact absurd h (List.lt_asymm (flatMap_utf8EncodeChar_lt hgt))

end Text

namespace Value.Key

/-- The first key stands before the second one. -/
inductive Precedes : Key → Key → Prop
  | int {m n : Int64} (h : m.toInt < n.toInt) : Precedes (int m) (int n)
  | intBool (n : Int64) (b : Bool) : Precedes (int n) (bool b)
  | intString (n : Int64) (text : String) : Precedes (int n) (string text)
  | bool : Precedes (bool false) (bool true)
  | boolString (b : Bool) (text : String) : Precedes (bool b) (string text)
  | string {s t : String} (h : Text.bytes s < Text.bytes t) : Precedes (string s) (string t)

theorem compare_int_eq_lt_iff (m n : Int64) :
    compare (int m) (int n) = .lt ↔ m.toInt < n.toInt := by
  change compare m n = .lt ↔ _
  rw [Std.compare_eq_lt, Int64.lt_iff_toInt_lt]

theorem compare_string_eq_lt_iff (s t : String) :
    compare (string s) (string t) = .lt ↔ Text.bytes s < Text.bytes t := by
  change compareOfLessAndEq s t = .lt ↔ _
  rw [compareOfLessAndEq_eq_lt, Text.bytes_lt_iff]

theorem compare_eq_lt_iff (a b : Key) : compare a b = .lt ↔ Precedes a b := by
  constructor
  · intro h
    match a, b with
    | int m, int n => exact .int ((compare_int_eq_lt_iff m n).mp h)
    | int n, bool b => exact .intBool n b
    | int n, string text => exact .intString n text
    | bool false, bool true => exact .bool
    | bool b, string text => exact .boolString b text
    | string s, string t => exact .string ((compare_string_eq_lt_iff s t).mp h)
  · intro h
    cases h with
    | int h => exact (compare_int_eq_lt_iff _ _).mpr h
    | intBool _ _ | intString _ _ | bool | boolString _ _ => rfl
    | string h => exact (compare_string_eq_lt_iff _ _).mpr h

end Value.Key

end Scriptlet
