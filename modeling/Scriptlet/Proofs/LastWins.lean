import Mathlib.Data.List.Nodup
import Scriptlet.Proofs.KeyOrder
import Scriptlet.Proofs.Literal
import Scriptlet.Proofs.Parts

/-! # Maps by content

A map literal puts its entries into the map one after the other, so that the last one with a key
stays. The order of entries in a map comes from their keys alone: maps with equal values at all keys
are equal, in whatever order they were written.
-/

namespace Scriptlet

namespace Entries

variable {κ β : Type}

theorem keys_cons (entry : κ × β) (entries : List (κ × β)) :
    keys (entry :: entries) = entry.1 :: keys entries :=
  List.map_cons

theorem mem_keys_reverse {key : κ} {entries : List (κ × β)} :
    key ∈ keys entries.reverse ↔ key ∈ keys entries := by
  rw [keys, keys, List.map_reverse, List.mem_reverse]

variable [Ord κ]

/-- Inserts the entries from the first to the last. -/
def insertAll (known pairs : List (κ × β)) : List (κ × β) :=
  pairs.foldl (fun entries pair => insert pair.1 pair.2 entries) known

theorem insertAll_cons (known : List (κ × β)) (key : κ) (value : β) (pairs : List (κ × β)) :
    insertAll known ((key, value) :: pairs) = insertAll (insert key value known) pairs :=
  List.foldl_cons ..

theorem find?_append (key : κ) (xs ys : List (κ × β)) :
    find? key (xs ++ ys) = (find? key xs).or (find? key ys) := by
  induction xs with
  | nil => rfl
  | cons x xs ih =>
    rw [List.cons_append, find?, find?, ih]
    split <;> rfl

variable [Std.LawfulEqOrd κ]

theorem find?_cons_self (entry : κ × β) (entries : List (κ × β)) :
    find? entry.1 (entry :: entries) = some entry.2 :=
  if_pos Std.ReflCmp.compare_self

theorem find?_cons_of_ne {key : κ} {entry : κ × β} (h : key ≠ entry.1) (entries : List (κ × β)) :
    find? key (entry :: entries) = find? key entries :=
  if_neg fun heq => h (Std.LawfulEqOrd.eq_of_compare heq)

theorem find?_eq_none_iff {key : κ} {entries : List (κ × β)} :
    find? key entries = none ↔ key ∉ keys entries := by
  induction entries with
  | nil => exact iff_of_true rfl List.not_mem_nil
  | cons entry rest ih =>
    rw [keys_cons, List.mem_cons, not_or]
    by_cases heq : key = entry.1
    · rw [heq, find?_cons_self]
      exact iff_of_false nofun fun h => h.1 rfl
    · rw [find?_cons_of_ne heq, ih, and_iff_right heq]

theorem find?_append_cons {before : List (κ × β)} {key : κ} (h : key ∉ keys before) (value : β)
    (after : List (κ × β)) : find? key (before ++ (key, value) :: after) = some value := by
  rw [find?_append, find?_eq_none_iff.mpr h, Option.none_or, find?_cons_self (key, value)]

/-! ### Entries with distinct keys -/

theorem find?_eq_some_iff_mem {key : κ} {value : β} {entries : List (κ × β)}
    (h : (keys entries).Nodup) : find? key entries = some value ↔ (key, value) ∈ entries := by
  refine ⟨mem_of_find?, fun hmem => ?_⟩
  obtain ⟨before, after, rfl⟩ := List.append_of_mem hmem
  rw [keys, List.map_append, List.nodup_append] at h
  refine find?_append_cons (fun hbefore => ?_) value after
  exact h.2.2 key hbefore key List.mem_cons_self rfl

theorem find?_perm {xs ys : List (κ × β)} (hperm : ys.Perm xs) (h : (keys xs).Nodup) (key : κ) :
    find? key ys = find? key xs := by
  have h' : (keys ys).Nodup := (hperm.map _).nodup_iff.mpr h
  refine Option.ext fun value => ?_
  rw [find?_eq_some_iff_mem h', find?_eq_some_iff_mem h, hperm.mem_iff]

/-! ### Entries that are inserted one after the other -/

/-- The last entry with a key is the first one from behind. -/
theorem find?_insertAll (key : κ) (known pairs : List (κ × β)) :
    find? key (insertAll known pairs) = (find? key pairs.reverse).or (find? key known) := by
  induction pairs generalizing known with
  | nil => rfl
  | cons pair rest ih =>
    obtain ⟨k, value⟩ := pair
    rw [insertAll_cons, ih, find?_insert, List.reverse_cons, find?_append, Option.or_assoc]
    congr 1
    rw [find?]
    split <;> rfl

theorem find?_insertAll_nil (key : κ) (pairs : List (κ × β)) :
    find? key (insertAll [] pairs) = find? key pairs.reverse := by
  rw [find?_insertAll, find?, Option.or_none]

theorem mem_keys_insertAll_nil {key : κ} {pairs : List (κ × β)} :
    key ∈ keys (insertAll [] pairs) ↔ key ∈ keys pairs := by
  rw [← not_iff_not, ← find?_eq_none_iff, find?_insertAll_nil, find?_eq_none_iff, mem_keys_reverse]

variable [Std.TransOrd κ]

theorem Ascending.insertAll {known : List (κ × β)} (h : Ascending known) (pairs : List (κ × β)) :
    Ascending (insertAll known pairs) := by
  induction pairs generalizing known with
  | nil => exact h
  | cons pair rest ih => exact ih (h.insert pair.1 pair.2)

/-! ### Maps with the same values -/

omit [Std.LawfulEqOrd κ] in
theorem Ascending.nodup_keys {entries : List (κ × β)} (h : Ascending entries) :
    (keys entries).Nodup := by
  refine List.pairwise_map.mpr (h.imp fun {first second} hlt heq => ?_)
  rw [heq] at hlt
  exact Std.OrientedCmp.not_lt_of_lt hlt hlt

/-- The keys alone put the entries in order. -/
theorem Ascending.eq_of_find?_eq {xs ys : List (κ × β)} (hx : Ascending xs) (hy : Ascending ys)
    (h : ∀ key, find? key xs = find? key ys) : xs = ys := by
  have hmem (entry : κ × β) : entry ∈ xs ↔ entry ∈ ys := by
    rw [← find?_eq_some_iff_mem hx.nodup_keys, h, find?_eq_some_iff_mem hy.nodup_keys]
  have hperm : xs.Perm ys :=
    (List.perm_ext_iff_of_nodup hx.nodup_keys.of_map hy.nodup_keys.of_map).mpr hmem
  refine hperm.eq_of_pairwise (fun first second _ _ hlt hgt => ?_) hx hy
  exact absurd hgt (Std.OrientedCmp.not_lt_of_lt hlt)

/-- Entries with distinct keys give the same map in any order. -/
theorem insertAll_perm {pairs pairs' : List (κ × β)} (hperm : pairs'.Perm pairs)
    (h : (keys pairs).Nodup) : insertAll [] pairs' = insertAll [] pairs := by
  have hreverse : pairs'.reverse.Perm pairs.reverse :=
    (pairs'.reverse_perm.trans hperm).trans pairs.reverse_perm.symm
  have hnodup : (keys pairs.reverse).Nodup := by
    rwa [keys, List.map_reverse, List.nodup_reverse]
  refine (Ascending.insertAll .nil pairs').eq_of_find?_eq (.insertAll .nil pairs) fun key => ?_
  rw [find?_insertAll_nil, find?_insertAll_nil, find?_perm hreverse hnodup]

end Entries

namespace Value

open Entries

/-! ### What a map holds -/

/-- Both maps lack the key, or both have it with equal values. -/
def AgreeAt (key : Key) (xs ys : List (Key × Value)) : Prop :=
  Option.Rel (fun v w => v.isEqual w = true) (find? key xs) (find? key ys)

theorem agreeAt_iff {key : Key} {xs ys : List (Key × Value)} :
    AgreeAt key xs ys ↔ find? key xs = find? key ys := by
  unfold AgreeAt
  cases find? key xs <;> cases find? key ys <;> simp [isEqual_iff]

theorem isEqual_map_iff {xs ys : List (Key × Value)} (hx : Ascending xs) (hy : Ascending ys) :
    (map xs).isEqual (map ys) = true ↔ ∀ key, AgreeAt key xs ys := by
  rw [isEqual_iff, map.injEq]
  constructor
  · rintro rfl key
    exact agreeAt_iff.mpr rfl
  · exact fun h => hx.eq_of_find?_eq hy fun key => agreeAt_iff.mp (h key)

theorem index_map_value (entries : List (Key × Value)) (key : Key) :
    (map entries).index key.value = .ok ((find? key entries).getD null) := by
  rw [index, Key.toKey_value]
  rfl

theorem ascending_iff {entries : List (Key × Value)} :
    Ascending entries ↔ (keys entries).Pairwise Key.Precedes := by
  rw [keys, List.pairwise_map]
  exact ⟨fun h => h.imp (Key.compare_eq_lt_iff _ _).mp,
    fun h => h.imp (Key.compare_eq_lt_iff _ _).mpr⟩

/-- The map holds the value of the last pair for each key, and its text has the keys in order. -/
structure HoldsLast (pairs entries : List (Key × Value)) : Prop where
  last : ∀ before key value after, pairs = before ++ (key, value) :: after → key ∉ keys after →
    (map entries).index key.value = .ok value
  absent : ∀ key, key ∉ keys pairs → (map entries).index key.value = .ok null
  mem_keys : ∀ key, key ∈ keys entries ↔ key ∈ keys pairs
  precedes : (keys entries).Pairwise Key.Precedes
  render : ∀ {α : Type} (store : Store α), store.render (map entries) =
    "\x7b" ++ ", ".intercalate (entries.map fun (key, value) =>
      key.render ++ ": " ++ value.renderAs store.functionText false) ++ "\x7d"

theorem holdsLast_insertAll (pairs : List (Key × Value)) :
    HoldsLast pairs (insertAll [] pairs) where
  last before key value after hpairs hlast := by
    subst hpairs
    rw [index_map_value, find?_insertAll_nil, List.reverse_append, List.reverse_cons,
      List.append_assoc, List.singleton_append,
      find?_append_cons (fun hmem => hlast (mem_keys_reverse.mp hmem)), Option.getD_some]
  absent key hkey := by
    have hnone := find?_eq_none_iff.mpr fun hmem => hkey (mem_keys_insertAll_nil.mp hmem)
    rw [index_map_value, hnone, Option.getD_none]
  mem_keys _ := mem_keys_insertAll_nil
  precedes := ascending_iff.mp (Ascending.insertAll .nil pairs)
  render store := by
    rw [Store.render, renderAs, renderEntries_eq_map]

end Value

namespace Grammar

variable {α : Type} (call : α → Value → List Value → Run α Value) (frame : Nat)

/-- One after the other, the entries of a literal evaluate to keys of maps and to values, from the
first store to the second one. -/
inductive EntriesYield :
    List (Expr α × Expr α) → Store α → List (Value.Key × Value) → Store α → Prop
  | nil (s : Store α) : EntriesYield [] s [] s
  | cons {keyExpr valueExpr : Expr α} {rest : List (Expr α × Expr α)} {key : Value.Key}
      {value : Value} {pairs : List (Value.Key × Value)} {s t u v : Store α}
      (hkey : keyExpr.eval call frame s = some (.ok key.value, t))
      (hvalue : valueExpr.eval call frame t = some (.ok value, u))
      (hrest : EntriesYield rest u pairs v) :
      EntriesYield ((keyExpr, valueExpr) :: rest) s ((key, value) :: pairs) v

variable {call frame}

theorem EntriesYield.evalEntries {exprs : List (Expr α × Expr α)} {s t : Store α}
    {pairs : List (Value.Key × Value)} (h : EntriesYield call frame exprs s pairs t)
    (known : List (Value.Key × Value)) :
    evalEntries call frame known exprs s = some (.ok (Entries.insertAll known pairs), t) := by
  induction h generalizing known with
  | nil s => rfl
  | @cons keyExpr valueExpr rest key value pairs s t u v hkey hvalue _ ih =>
    rw [Grammar.evalEntries, Run.bind_of_ok hkey, Value.Key.toKey_value]
    rw [Run.bind_of_ok (Run.ofExcept_ok keyExpr.label key t), Run.bind_of_ok hvalue]
    exact ih (Entries.insert key value known)

theorem EntriesYield.eval {exprs : List (Expr α × Expr α)} {s t : Store α}
    {pairs : List (Value.Key × Value)} (h : EntriesYield call frame exprs s pairs t) (label : α) :
    (Expr.map label exprs).eval call frame s
      = some (.ok (.map (Entries.insertAll [] pairs)), t) := by
  rw [Expr.eval, Run.bind_of_ok (h.evalEntries [])]
  rfl

/-- The value of a map literal holds for each key the value of the last entry with the key, and has
its keys in order. Maps are equal if they have the same keys with equal values, so that entries with
distinct keys give the same map in any order. -/
theorem eval_map_lastWins {exprs : List (Expr α × Expr α)} {s t : Store α}
    {pairs : List (Value.Key × Value)} (h : EntriesYield call frame exprs s pairs t) (label : α) :
    ∃ entries, (Expr.map label exprs).eval call frame s = some (.ok (.map entries), t) ∧
      Value.HoldsLast pairs entries ∧
      (∀ xs ys, (Entries.keys xs).Pairwise Value.Key.Precedes →
        (Entries.keys ys).Pairwise Value.Key.Precedes →
        ((Value.map xs).isEqual (.map ys) = true ↔ ∀ key, Value.AgreeAt key xs ys)) ∧
      ∀ call' frame' exprs' (s' t' : Store α) pairs',
        EntriesYield call' frame' exprs' s' pairs' t' → pairs'.Perm pairs →
        (Entries.keys pairs).Nodup → ∀ label' : α, ∃ entries',
          (Expr.map label' exprs').eval call' frame' s' = some (.ok (.map entries'), t') ∧
            (Value.map entries').isEqual (.map entries) = true ∧
            ∀ {β : Type} (store : Store β),
              store.render (.map entries') = store.render (.map entries) := by
  refine ⟨_, h.eval label, Value.holdsLast_insertAll pairs, fun xs ys hxs hys => ?_, ?_⟩
  · exact Value.isEqual_map_iff (Value.ascending_iff.mpr hxs) (Value.ascending_iff.mpr hys)
  · intro call' frame' exprs' s' t' pairs' h' hperm hnodup label'
    have hsame := congrArg Value.map (Entries.insertAll_perm hperm hnodup)
    exact ⟨_, h'.eval label', (Value.isEqual_iff _ _).mpr hsame, fun store => by rw [hsame]⟩

/-- Keys of all three kinds, a key that comes again, and a value that makes a function. -/
theorem eval_map_lastWins_repeated :
    let call : Unit → Value → List Value → Run Unit Value := fun _ _ _ => Run.endless
    let exprs : List (Expr Unit × Expr Unit) :=
      [(.bool () true, .int () 1), (.string () "é", .array () [.int () 2]),
        (.unary () .negate (.int () 1), .function () [] (.mk () [])),
        (.bool () true, .string () "x")]
    let pairs : List (Value.Key × Value) :=
      [(.bool true, .int 1), (.string "é", .array [.int 2]), (.int (-1), .function 0),
        (.bool true, .string "x")]
    let t : Store Unit := (Store.initial.close ⟨[], .mk () [], 0⟩).2
    EntriesYield call 0 exprs Store.initial pairs t ∧ ∃ entries,
      (Expr.map () exprs).eval call 0 Store.initial = some (.ok (.map entries), t) ∧
        Value.HoldsLast pairs entries ∧
        t.render (.map entries) = "\x7b-1: fn() \x7b \x7d, true: \"x\", \"é\": [2]\x7d" := by
  intro call exprs pairs t
  have hyield : EntriesYield call 0 exprs Store.initial pairs t :=
    .cons rfl rfl (.cons rfl rfl (.cons rfl rfl (.cons rfl rfl (.nil t))))
  obtain ⟨entries, heval, hholds, -⟩ := eval_map_lastWins hyield ()
  refine ⟨hyield, entries, heval, hholds, ?_⟩
  cases heval
  rfl

end Grammar

end Scriptlet
