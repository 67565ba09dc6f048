import Mathlib.Order.Monotone.Defs
import Scriptlet.Store
import Scriptlet.Value.Builtin
import Scriptlet.Value.Operator

/-! # Values with other references

What a function value refers to matters to nothing but calls, rendering and the test for equality.
All other operations go the same way when the references are renamed, and so does that test if
different references stay different.
-/

namespace Scriptlet

namespace Entries

variable {κ β γ : Type} [Ord κ]

def mapValues (f : β → γ) (entries : List (κ × β)) : List (κ × γ) :=
  entries.map fun entry => (entry.1, f entry.2)

theorem find?_mapValues (f : β → γ) (key : κ) (entries : List (κ × β)) :
    find? key (mapValues f entries) = (find? key entries).map f := by
  induction entries with
  | nil => rfl
  | cons entry rest ih =>
    simp only [mapValues, List.map_cons, find?] at ih ⊢
    split
    · rfl
    · exact ih

theorem insert_mapValues (f : β → γ) (key : κ) (value : β) (entries : List (κ × β)) :
    insert key (f value) (mapValues f entries) = mapValues f (insert key value entries) := by
  induction entries with
  | nil => rfl
  | cons entry rest ih =>
    simp only [mapValues, List.map_cons, insert] at ih ⊢
    split
    · rfl
    · rfl
    · rw [ih, List.map_cons]

end Entries

namespace Value

section Definitions

variable (f : Nat → Nat)

mutual

def rename : Value → Value
  | .int value => .int value
  | .bool value => .bool value
  | .string text => .string text
  | .array elements => .array (renameElements elements)
  | .map entries => .map (renameEntries entries)
  | .function reference => .function (f reference)
  | .builtin primitive => .builtin primitive
  | .null => .null

def renameElements : List Value → List Value
  | [] => []
  | value :: rest => value.rename :: renameElements rest

def renameEntries : List (Key × Value) → List (Key × Value)
  | [] => []
  | (key, value) :: rest => (key, value.rename) :: renameEntries rest

end

end Definitions

variable {f : Nat → Nat}

theorem renameElements_eq_map (elements : List Value) :
    renameElements f elements = elements.map (rename f) := by
  induction elements with
  | nil => rfl
  | cons first rest ih => rw [renameElements, ih, List.map_cons]

theorem renameEntries_eq_mapValues (entries : List (Key × Value)) :
    renameEntries f entries = Entries.mapValues (rename f) entries := by
  induction entries with
  | nil => rfl
  | cons first rest ih =>
    rw [renameEntries, ih, Entries.mapValues, Entries.mapValues, List.map_cons]

theorem rename_array (elements : List Value) :
    (array elements).rename f = array (elements.map (rename f)) := by
  rw [rename, renameElements_eq_map]

theorem rename_map (entries : List (Key × Value)) :
    (map entries).rename f = map (Entries.mapValues (rename f) entries) := by
  rw [rename, renameEntries_eq_mapValues]

/-! ### Operations -/

@[simp] theorem kind_rename (value : Value) : (value.rename f).kind = value.kind := by
  cases value <;> rfl

@[simp] theorem isTruthy_rename (value : Value) :
    (value.rename f).isTruthy = value.isTruthy := by
  cases value <;> rfl

@[simp] theorem toKey_rename (value : Value) : (value.rename f).toKey = value.toKey := by
  cases value <;> rfl

theorem unary_rename (op : Grammar.UnaryOp) (operand : Value) :
    (operand.rename f).unary op = (operand.unary op).map (rename f) := by
  cases op with
  | not => simp only [unary, isTruthy_rename, Except.map, rename]
  | negate => cases operand <;> rfl

theorem rename_eq_int {value : Value} {n : Int64} (h : value.rename f = int n) :
    value = int n := by
  cases value <;> first | exact h | cases h

theorem rename_eq_string {value : Value} {text : String} (h : value.rename f = string text) :
    value = string text := by
  cases value <;> first | exact h | cases h

mutual

theorem isEqual_rename (hf : f.Injective) (a b : Value) :
    (a.rename f).isEqual (b.rename f) = a.isEqual b := by
  match a with
  | int _ | bool _ | string _ | builtin _ | null => cases b <;> rfl
  | array xs =>
    cases b with
    | array ys => exact elementsEqual_rename hf xs ys
    | _ => rfl
  | map xs =>
    cases b with
    | map ys => exact entriesEqual_rename hf xs ys
    | _ => rfl
  | function r =>
    cases b with
    | function q => simp only [rename, isEqual, beq_eq_decide, hf.eq_iff]
    | _ => rfl

theorem elementsEqual_rename (hf : f.Injective) (xs ys : List Value) :
    elementsEqual (renameElements f xs) (renameElements f ys) = elementsEqual xs ys := by
  match xs, ys with
  | [], [] | [], _ :: _ | _ :: _, [] => rfl
  | x :: xs, y :: ys =>
    simp only [renameElements, elementsEqual, isEqual_rename hf x y, elementsEqual_rename hf xs ys]

theorem entriesEqual_rename (hf : f.Injective) (xs ys : List (Key × Value)) :
    entriesEqual (renameEntries f xs) (renameEntries f ys) = entriesEqual xs ys := by
  match xs, ys with
  | [], [] | [], _ :: _ | _ :: _, [] => rfl
  | (k, v) :: xs, (l, w) :: ys =>
    simp only [renameEntries, entriesEqual, isEqual_rename hf v w, entriesEqual_rename hf xs ys]

end

theorem comparison_rename (hf : f.Injective) (op : Grammar.BinaryOp) (a b : Value) :
    comparison op (a.rename f) (b.rename f) = (comparison op a b).map (rename f) := by
  cases op <;> simp only [comparison, isEqual_rename hf, kind_rename] <;> rfl

theorem binary_rename (hf : f.Injective) (op : Grammar.BinaryOp) (a b : Value) :
    binary op (a.rename f) (b.rename f) = (binary op a b).map (rename f) := by
  fun_cases binary op a b
  case case1 m n =>
    cases op
    case divide =>
      simp only [rename, binary, arithmetic]
      split <;> rfl
    all_goals rfl
  case case2 s t => cases op <;> rfl
  case case3 hints hstrings hkind =>
    rw [binary_of_others, if_pos (by simp only [kind_rename, hkind]), comparison_rename hf]
    · exact fun m n hm hn => hints m n (rename_eq_int hm) (rename_eq_int hn)
    · exact fun s t hs ht => hstrings s t (rename_eq_string hs) (rename_eq_string ht)
  case case4 hints hstrings hkind =>
    rw [binary_of_others, if_neg (by simpa only [kind_rename] using hkind), kind_rename,
      kind_rename]
    · rfl
    · exact fun m n hm hn => hints m n (rename_eq_int hm) (rename_eq_int hn)
    · exact fun s t hs ht => hstrings s t (rename_eq_string hs) (rename_eq_string ht)

theorem elementAt_rename (elements : List Value) (position : Int64) :
    elementAt (elements.map (rename f)) position = (elementAt elements position).rename f := by
  unfold elementAt
  cases position.toInt with
  | ofNat n =>
    simp only [List.getElem?_map]
    cases elements[n]? <;> rfl
  | negSucc _ => rfl

theorem index_rename (collection position : Value) :
    (collection.rename f).index (position.rename f)
      = (collection.index position).map (rename f) := by
  cases collection with
  | array elements =>
    rw [rename_array]
    cases position with
    | int n => exact congrArg Except.ok (elementAt_rename elements n)
    | _ => rfl
  | map entries =>
    simp only [rename_map, index, toKey_rename]
    cases position.toKey with
    | error fault => rfl
    | ok key =>
      refine congrArg Except.ok ?_
      rw [Entries.find?_mapValues]
      cases Entries.find? key entries <;> rfl
  | _ => rfl

namespace Builtin

theorem result_rename (builtin : Builtin) (arguments : List Value) :
    builtin.result (arguments.map (rename f)) = (builtin.result arguments).map (rename f) := by
  cases arguments with
  | nil => cases builtin <;> rfl
  | cons value others =>
    cases value with
    | array elements =>
      rw [List.map_cons, rename_array]
      cases builtin with
      | len =>
        cases others with
        | nil =>
          simp only [List.map_nil, result, List.length_map]
          rfl
        | cons _ _ => rfl
      | first =>
        cases others with
        | nil => cases elements <;> rfl
        | cons _ _ => rfl
      | last =>
        cases others with
        | nil =>
          simp only [List.map_nil, result, List.getLast?_map]
          cases elements.getLast? <;> rfl
        | cons _ _ => rfl
      | rest =>
        cases others with
        | nil =>
          cases elements with
          | nil => rfl
          | cons _ rest => exact congrArg Except.ok (rename_array rest).symm
        | cons _ _ => cases elements <;> rfl
      | push =>
        match others with
        | [] | _ :: _ :: _ => rfl
        | [value] =>
          simp only [List.map_cons, List.map_nil, result, Except.map, rename_array,
            List.map_append]
      | puts => rfl
    | _ => cases builtin <;> cases others <;> rfl

theorem call_rename (builtin : Builtin) (arguments : List Value) :
    builtin.call (arguments.map (rename f)) = (builtin.call arguments).map (rename f) := by
  unfold call
  rw [List.length_map]
  split
  · exact result_rename builtin arguments
  · split
    · exact result_rename builtin arguments
    · rfl

end Builtin

/-! ### Texts -/

mutual

theorem renderAs_rename (function : Nat → String) (bare : Bool) : ∀ value : Value,
    (value.rename f).renderAs function bare = value.renderAs (fun r => function (f r)) bare
  | .int _ | .bool _ | .string _ | .function _ | .builtin _ | .null => rfl
  | .array elements => by rw [rename, renderAs, renderAs, renderElements_rename function elements]
  | .map entries => by rw [rename, renderAs, renderAs, renderEntries_rename function entries]

theorem renderElements_rename (function : Nat → String) : ∀ elements : List Value,
    renderElements function (renameElements f elements)
      = renderElements (fun r => function (f r)) elements
  | [] => rfl
  | value :: rest => by
    rw [renameElements, renderElements, renderElements, renderAs_rename function false value,
      renderElements_rename function rest]

theorem renderEntries_rename (function : Nat → String) : ∀ entries : List (Key × Value),
    renderEntries function (renameEntries f entries)
      = renderEntries (fun r => function (f r)) entries
  | [] => rfl
  | (key, value) :: rest => by
    rw [renameEntries, renderEntries, renderEntries, renderAs_rename function false value,
      renderEntries_rename function rest]

end

end Value

end Scriptlet
