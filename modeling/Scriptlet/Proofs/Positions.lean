import Mathlib.Algebra.Group.Nat.Defs
import Scriptlet.Value.Builtin
import Scriptlet.Value.Operator

/-! # Positions in arrays

The built-in functions on arrays, told by the elements at all positions. A position is a word, and
so is a length: there is no memory for `2 ^ 63` elements.
-/

namespace Scriptlet.Value

/-! ### Words that do not wrap around -/

theorem exists_toInt_eq {i : Int64} (h : 0 ≤ i) : ∃ n : Nat, i.toInt = n :=
  Int.eq_ofNat_of_zero_le (Int64.le_iff_toInt_le.mp h)

theorem toInt_add_one {i size : Int64} (h : i < size) : (i + 1).toInt = i.toInt + 1 := by
  have hlt := Int64.lt_iff_toInt_lt.mp h
  have hmin := i.le_toInt
  have hmax := size.toInt_lt
  rw [Int64.toInt_add, Int64.toInt_one]
  apply Int.bmod_eq_of_le <;> omega

theorem toInt_sub_one {i : Int64} (h : 0 ≤ i) : (i - 1).toInt = i.toInt - 1 := by
  have hle := Int64.le_iff_toInt_le.mp h
  have hmax := i.toInt_lt
  rw [Int64.toInt_zero] at hle
  rw [Int64.toInt_sub, Int64.toInt_one]
  apply Int.bmod_eq_of_le <;> omega

/-! ### Elements -/

theorem index_of_toInt_eq {i : Int64} {n : Nat} (h : i.toInt = n) (elements : List Value) :
    (array elements).index (int i) = .ok (elements[n]?.getD null) := by
  rw [index, elementAt, h]

theorem index_of_neg {i : Int64} (h : i < 0) (elements : List Value) :
    (array elements).index (int i) = .ok null := by
  rw [Int64.lt_iff_toInt_lt, Int64.toInt_zero] at h
  obtain ⟨n, hn⟩ := Int.eq_negSucc_of_lt_zero h
  rw [index, elementAt, hn]

/-- What the built-in functions make of an array of this size. -/
structure ArrayLaws (elements : List Value) (size : Int64) : Prop where
  len : Builtin.len.call [array elements] = .ok (int size)
  outside : ∀ i, i < 0 ∨ size ≤ i → (array elements).index (int i) = .ok null
  first : Builtin.first.call [array elements] = (array elements).index (int 0)
  last : Builtin.last.call [array elements] = (array elements).index (int (size - 1))
  rest : ∃ behind, Builtin.rest.call [array elements] = .ok behind ∧
    (behind = null ↔ elements = []) ∧ (elements ≠ [] →
      Builtin.len.call [behind] = .ok (int (size - 1)) ∧
      ∀ i, 0 ≤ i → i < size → behind.index (int i) = (array elements).index (int (i + 1)))
  push : ∀ value, ∃ pushed, Builtin.push.call [array elements, value] = .ok pushed ∧
    Builtin.len.call [pushed] = .ok (int (size + 1)) ∧ Builtin.last.call [pushed] = .ok value ∧
    ∀ i, pushed.index (int i) = if i < size then (array elements).index (int i)
      else if i = size then .ok value else .ok null

section Sized

variable {elements : List Value} {size : Int64} (h : size.toInt = elements.length)

include h

theorem eq_ofNat_length : size = Int64.ofNat elements.length := by
  rw [← Int64.ofInt_toInt size, h, Int64.ofInt_eq_ofNat]

theorem zero_le_size : 0 ≤ size := by
  rw [Int64.le_iff_toInt_le, h]
  exact Int.natCast_nonneg _

theorem index_of_size_le {i : Int64} (hi : size ≤ i) :
    (array elements).index (int i) = .ok null := by
  rw [Int64.le_iff_toInt_le, h] at hi
  obtain ⟨n, hn⟩ := Int.eq_ofNat_of_zero_le (a := i.toInt) (by omega)
  rw [index_of_toInt_eq hn, List.getElem?_eq_none (by omega), Option.getD_none]

theorem call_len : Builtin.len.call [array elements] = .ok (int size) := by
  rw [eq_ofNat_length h]
  rfl

theorem call_last : Builtin.last.call [array elements]
    = (array elements).index (int (size - 1)) := by
  have hlast := toInt_sub_one (zero_le_size h)
  change Except.ok (elements.getLast?.getD null) = _
  cases elements with
  | nil =>
    have hneg : size - 1 < 0 := by
      rw [Int64.lt_iff_toInt_lt, hlast, h]
      decide
    rw [index_of_neg hneg]
    rfl
  | cons first rest =>
    rw [h, List.length_cons] at hlast
    rw [index_of_toInt_eq (n := rest.length) (by omega), List.getLast?_eq_getElem?]
    rfl

theorem index_push (value : Value) (i : Int64) :
    (array (elements ++ [value])).index (int i) = if i < size then (array elements).index (int i)
      else if i = size then .ok value else .ok null := by
  by_cases hneg : i < 0
  · rw [if_pos (Std.lt_of_lt_of_le hneg (zero_le_size h)), index_of_neg hneg, index_of_neg hneg]
  · obtain ⟨n, hn⟩ := exists_toInt_eq (Std.not_lt.mp hneg)
    have hlt : i < size ↔ n < elements.length := by
      rw [Int64.lt_iff_toInt_lt, hn, h, Int.ofNat_lt]
    have heq : i = size ↔ n = elements.length := by
      rw [← Int64.toInt_inj, hn, h, Int.natCast_inj]
    rw [index_of_toInt_eq hn, index_of_toInt_eq hn]
    rcases Nat.lt_trichotomy n elements.length with hless | rfl | hmore
    · rw [if_pos (hlt.mpr hless), List.getElem?_append_left hless]
    · rw [if_neg fun hless => Nat.lt_irrefl _ (hlt.mp hless), if_pos (heq.mpr rfl),
        List.getElem?_concat_length]
      rfl
    · have hlength : (elements ++ [value]).length ≤ n := by
        rw [List.length_append]
        exact hmore
      rw [if_neg fun hless => Nat.lt_asymm hmore (hlt.mp hless),
        if_neg fun hsame => Nat.ne_of_gt hmore (heq.mp hsame), List.getElem?_eq_none hlength]
      rfl

end Sized

/-- A position behind the first element, in the array without it. -/
theorem index_rest {first : Value} {rest : List Value} {size i : Int64} (hi : 0 ≤ i)
    (hlt : i < size) :
    (array rest).index (int i) = (array (first :: rest)).index (int (i + 1)) := by
  obtain ⟨n, hn⟩ := exists_toInt_eq hi
  have hnext : (i + 1).toInt = (n + 1 : Nat) := by
    rw [toInt_add_one hlt, hn]
    rfl
  rw [index_of_toInt_eq hn, index_of_toInt_eq hnext, List.getElem?_cons_succ]

theorem arrayLaws_of_size {elements : List Value} {size : Int64}
    (h : size.toInt = elements.length) : ArrayLaws elements size where
  len := call_len h
  outside i hi := hi.elim (fun hneg => index_of_neg hneg elements) (index_of_size_le h)
  first := by
    rw [index_of_toInt_eq Int64.toInt_zero, ← List.head?_eq_getElem?]
    rfl
  last := call_last h
  rest := by
    cases elements with
    | nil => exact ⟨null, rfl, iff_of_true rfl rfl, fun hne => absurd rfl hne⟩
    | cons first rest =>
      refine ⟨array rest, rfl, iff_of_false nofun nofun, fun _ => ⟨?_, fun i => index_rest⟩⟩
      have hrest : size - 1 = Int64.ofNat rest.length := by
        rw [eq_ofNat_length h, List.length_cons, Int64.ofNat_add]
        exact Int64.add_sub_cancel _ _
      rw [hrest]
      rfl
  push value := by
    refine ⟨array (elements ++ [value]), rfl, ?_, ?_, index_push h value⟩
    · change Except.ok (int (.ofNat (elements ++ [value]).length)) = _
      rw [List.length_append, Int64.ofNat_add, ← eq_ofNat_length h]
      rfl
    · change Except.ok ((elements ++ [value]).getLast?.getD null) = _
      rw [List.getLast?_concat, Option.getD_some]

/-- Length, ends, rest and extension of an array agree with its elements at all positions. Lengths
of strings, which are counted in characters, add up. -/
theorem arrayLaws_of_length {elements : List Value} (h : elements.length < 2 ^ 63) :
    (∃ size : Int64, size.toInt = elements.length ∧ ArrayLaws elements size) ∧
    (∀ text : String, Builtin.len.call [string text] = .ok (int (.ofNat text.toList.length))) ∧
    ∀ s t : String, ∃ joined, binary .add (string s) (string t) = .ok joined ∧
      ∀ m n, Builtin.len.call [string s] = .ok (int m) →
        Builtin.len.call [string t] = .ok (int n) →
        Builtin.len.call [joined] = .ok (int (m + n)) := by
  have hsize : (Int64.ofNat elements.length).toInt = elements.length :=
    Int64.toInt_ofNat_of_lt h
  refine ⟨⟨_, hsize, arrayLaws_of_size hsize⟩, fun text => ?_, fun s t => ?_⟩
  · rw [String.length_toList]
    rfl
  · refine ⟨string (s ++ t), rfl, fun m n hs ht => ?_⟩
    cases hs
    cases ht
    change Except.ok (int (.ofNat (s ++ t).length)) = _
    rw [String.length_append, Int64.ofNat_add]

/-- An array of two elements, and strings with characters of more than one byte. -/
theorem arrayLaws_of_length_two :
    let elements : List Value := [int 7, array [null]]
    elements.length < 2 ^ 63 ∧
      (∃ size : Int64, size.toInt = 2 ∧ ArrayLaws elements size) ∧
      Builtin.len.call [string "äß"] = .ok (int 2) ∧
      ∃ joined, binary .add (string "äß") (string "c") = .ok joined ∧
        Builtin.len.call [joined] = .ok (int (2 + 1)) := by
  intro elements
  have hlength : elements.length < 2 ^ 63 := by decide
  obtain ⟨hsize, hlen, hjoin⟩ := arrayLaws_of_length hlength
  obtain ⟨joined, hadd, hsum⟩ := hjoin "äß" "c"
  exact ⟨hlength, hsize, hlen "äß", joined, hadd, hsum 2 1 (hlen "äß") (hlen "c")⟩

end Scriptlet.Value
