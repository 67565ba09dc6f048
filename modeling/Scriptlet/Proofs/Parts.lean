import Scriptlet.Proofs.Renaming

/-! # What values are made of

The strings and the references that occur in a value, at any depth. An operation puts its result
together from what its operands are made of, and only `+` makes a string that was not there before.
-/

namespace Scriptlet

theorem Entries.mem_of_find? {κ β : Type} [Ord κ] [Std.LawfulEqOrd κ] {key : κ} {value : β}
    {entries : List (κ × β)} (h : find? key entries = some value) : (key, value) ∈ entries := by
  induction entries with
  | nil => cases h
  | cons entry rest ih =>
    simp only [find?] at h
    split at h
    · next heq =>
      cases Std.LawfulEqOrd.eq_of_compare heq
      cases h
      exact List.mem_cons_self
    · exact List.mem_cons_of_mem _ (ih h)

namespace Value

def Key.MadeOf (text : String → Prop) : Key → Prop
  | int _ | bool _ => True
  | string s => text s

inductive MadeOf (text : String → Prop) (reference : Nat → Prop) : Value → Prop
  | int (n : Int64) : MadeOf text reference (.int n)
  | bool (b : Bool) : MadeOf text reference (.bool b)
  | string {s : String} (h : text s) : MadeOf text reference (.string s)
  | array {elements : List Value} (h : ∀ value ∈ elements, MadeOf text reference value) :
      MadeOf text reference (.array elements)
  | map {entries : List (Key × Value)} (hkeys : ∀ entry ∈ entries, entry.1.MadeOf text)
      (hvalues : ∀ entry ∈ entries, MadeOf text reference entry.2) :
      MadeOf text reference (.map entries)
  | function {r : Nat} (h : reference r) : MadeOf text reference (.function r)
  | builtin (primitive : Builtin) : MadeOf text reference (.builtin primitive)
  | null : MadeOf text reference .null

namespace MadeOf

variable {text : String → Prop} {reference : Nat → Prop}

theorem mono {reference' : Nat → Prop} {value : Value} (h : value.MadeOf text reference)
    (hle : ∀ r, reference r → reference' r) : value.MadeOf text reference' := by
  induction h with
  | int n => exact int n
  | bool b => exact bool b
  | string h => exact string h
  | array _ ih => exact array ih
  | map hkeys _ ih => exact map hkeys ih
  | function h => exact function (hle _ h)
  | builtin primitive => exact builtin primitive
  | null => exact null

theorem rename_eq_self {f : Nat → Nat} {value : Value} (h : value.MadeOf text reference)
    (hf : ∀ r, reference r → f r = r) : value.rename f = value := by
  induction h with
  | int _ | bool _ | string _ | builtin _ | null => rfl
  | array _ ih => rw [rename_array, List.map_congr_left ih, List.map_id']
  | map _ _ ih =>
    rw [rename_map, Entries.mapValues, List.map_congr_left fun entry h => by rw [ih entry h],
      List.map_id']
  | function h => rw [rename, hf _ h]

/-! ### Results of operations -/

theorem unary {op : Grammar.UnaryOp} {operand value : Value}
    (h : operand.unary op = .ok value) : value.MadeOf text reference := by
  cases op with
  | not =>
    cases h
    exact bool _
  | negate =>
    cases operand with
    | int n =>
      cases h
      exact int _
    | _ => cases h

theorem arithmetic {op : Grammar.BinaryOp} {m n : Int64} {value : Value}
    (h : arithmetic op m n = .ok value) : value.MadeOf text reference := by
  cases op with
  | add | subtract | multiply =>
    cases h
    exact int _
  | divide =>
    rw [Value.arithmetic] at h
    split at h
    · cases h
    · cases h
      exact int _
  | less | greater | equal | notEqual =>
    cases h
    exact bool _

theorem comparison {op : Grammar.BinaryOp} {lhs rhs value : Value}
    (h : comparison op lhs rhs = .ok value) : value.MadeOf text reference := by
  cases op with
  | equal | notEqual =>
    cases h
    exact bool _
  | _ => cases h

theorem binary (happend : ∀ s t, text s → text t → text (s ++ t)) {op : Grammar.BinaryOp}
    {lhs rhs value : Value} (hlhs : lhs.MadeOf text reference) (hrhs : rhs.MadeOf text reference)
    (h : binary op lhs rhs = .ok value) : value.MadeOf text reference := by
  revert h
  fun_cases Value.binary op lhs rhs
  case case1 m n => exact arithmetic
  case case2 s t =>
    intro h
    cases hlhs with
    | string hs =>
      cases hrhs with
      | string ht =>
        cases op with
        | add =>
          cases h
          exact string (happend s t hs ht)
        | _ => cases h
  case case3 => exact comparison
  case case4 =>
    intro h
    cases h

theorem toKey {value : Value} {key : Key} (hvalue : value.MadeOf text reference)
    (h : value.toKey = .ok key) : key.MadeOf text := by
  cases hvalue with
  | int _ | bool _ =>
    cases h
    trivial
  | string hs =>
    cases h
    exact hs
  | _ => cases h

theorem elements {elements : List Value} (h : (Value.array elements).MadeOf text reference) :
    ∀ value ∈ elements, value.MadeOf text reference := by
  cases h with
  | array h => exact h

theorem getD_null {value? : Option Value}
    (h : ∀ value, value? = some value → value.MadeOf text reference) :
    (value?.getD .null).MadeOf text reference := by
  cases value? with
  | none => exact null
  | some value => exact h value rfl

theorem index {collection position value : Value}
    (hcollection : collection.MadeOf text reference)
    (h : collection.index position = .ok value) : value.MadeOf text reference := by
  cases hcollection with
  | array helements =>
    cases position with
    | int n =>
      cases h
      unfold elementAt
      split
      · exact getD_null fun value hvalue => helements value (List.mem_of_getElem? hvalue)
      · exact null
    | _ => cases h
  | map _ hvalues =>
    rw [Value.index] at h
    cases hkey : position.toKey with
    | error fault =>
      rw [hkey] at h
      cases h
    | ok key =>
      rw [hkey] at h
      cases h
      exact getD_null fun value hvalue => hvalues (key, value) (Entries.mem_of_find? hvalue)
  | _ => cases h

theorem result {primitive : Builtin} {arguments : List Value} {value : Value}
    (harguments : ∀ argument ∈ arguments, argument.MadeOf text reference)
    (h : primitive.result arguments = .ok value) : value.MadeOf text reference := by
  revert h
  fun_cases Builtin.result primitive arguments
  case case1 | case2 =>
    intro h
    cases h
    exact int _
  case case4 elements =>
    intro h
    cases h
    have helements := (harguments _ List.mem_cons_self).elements
    exact getD_null fun value hvalue => helements value (List.mem_of_mem_head? hvalue)
  case case5 elements =>
    intro h
    cases h
    have helements := (harguments _ List.mem_cons_self).elements
    exact getD_null fun value hvalue => helements value (List.mem_of_getLast? hvalue)
  case case7 first elements =>
    intro h
    cases h
    have helements := (harguments _ List.mem_cons_self).elements
    exact array (List.forall_mem_cons.mp helements).2
  case case8 elements value =>
    intro h
    cases h
    obtain ⟨harray, hvalue⟩ := List.forall_mem_cons.mp harguments
    exact array (List.forall_mem_append.mpr ⟨harray.elements, hvalue⟩)
  case case6 | case13 =>
    intro h
    cases h
    exact null
  all_goals exact nofun

theorem call {primitive : Builtin} {arguments : List Value} {value : Value}
    (harguments : ∀ argument ∈ arguments, argument.MadeOf text reference)
    (h : primitive.call arguments = .ok value) : value.MadeOf text reference := by
  rw [Builtin.call] at h
  split at h
  · exact result harguments h
  · split at h
    · exact result harguments h
    · cases h

end MadeOf

end Value

end Scriptlet
