import Scriptlet.Proofs.Again
import Scriptlet.Proofs.Handles

/-! # Room beside a store

Of two stores that agree up to numbers the second one may get frames and closures of its own. They
stand behind what the first store knows of, so that the two still agree, under numbers that are new
only for what the first store does not hold yet.
-/

namespace Scriptlet

variable {α : Type} {m : Material α}

theorem Value.MadeOf.rename_congr {text : String → Prop} {reference : Nat → Prop} {f g : Nat → Nat}
    {value : Value} (h : value.MadeOf text reference) (hfg : ∀ r, reference r → f r = g r) :
    value.rename f = value.rename g := by
  induction h with
  | int _ | bool _ | string _ | builtin _ | null => rfl
  | array _ ih => rw [rename_array, rename_array, List.map_congr_left ih]
  | map _ _ ih =>
    rw [rename_map, rename_map, Entries.mapValues, Entries.mapValues,
      List.map_congr_left fun entry h => by rw [ih entry h]]
  | function h => rw [rename, rename, hfg _ h]

/-- The two give the same numbers to what is in the store. -/
structure Renaming.Agrees (ρ ρ' : Renaming) (s : Store α) : Prop where
  frame : ∀ id < s.frames.size, ρ'.frame id = ρ.frame id
  reference : ∀ r < s.closures.size, ρ'.reference r = ρ.reference r

namespace Renaming.Agrees

variable {ρ ρ' ρ'' : Renaming} {s t : Store α}

theorem trans (h : ρ.Agrees ρ' s) (h' : ρ'.Agrees ρ'' t) (hframes : s.frames.size ≤ t.frames.size)
    (hclosures : s.closures.size ≤ t.closures.size) : ρ.Agrees ρ'' s where
  frame id hid := (h'.frame id (hid.trans_le hframes)).trans (h.frame id hid)
  reference r hr := (h'.reference r (hr.trans_le hclosures)).trans (h.reference r hr)

theorem rename_eq (h : ρ.Agrees ρ' s) {value : Value} (hvalue : s.Admits m value) :
    value.rename ρ'.reference = value.rename ρ.reference :=
  hvalue.rename_congr h.reference

theorem rename_frame (h : ρ.Agrees ρ' s) (hs : s.Sound m) {id : Nat} {frame : Frame}
    (hframe : s.frames[id]? = some frame) : frame.rename ρ' = frame.rename ρ := by
  have hbindings : Entries.mapValues (Value.rename ρ'.reference) frame.bindings
      = Entries.mapValues (Value.rename ρ.reference) frame.bindings := by
    refine List.map_congr_left fun entry hentry => ?_
    rw [h.rename_eq (hs.binding id frame hframe entry hentry)]
  have hparent : frame.parent.map ρ'.frame = frame.parent.map ρ.frame := by
    cases hparent : frame.parent with
    | none => rfl
    | some parent =>
      have hid : id < s.frames.size := (Array.getElem?_eq_some_iff.mp hframe).1
      rw [Option.map_some, Option.map_some,
        h.frame parent ((hs.parent id frame parent hframe hparent).trans hid)]
  rw [Frame.rename, Frame.rename, hbindings, hparent]

end Renaming.Agrees

/-- What is in the store has its own number. -/
structure Renaming.Keeps (ρ : Renaming) (s : Store α) : Prop where
  frame : ∀ id < s.frames.size, ρ.frame id = id
  reference : ∀ r < s.closures.size, ρ.reference r = r

namespace Renaming

variable {ρ ρ' : Renaming} {s t : Store α}

theorem Past.keeps (h : ρ.Past s t) : ρ.Keeps s :=
  ⟨h.frame_eq, h.reference_eq⟩

theorem Keeps.of_agrees (h : ρ.Keeps s) (hagrees : ρ.Agrees ρ' s) : ρ'.Keeps s where
  frame id hid := (hagrees.frame id hid).trans (h.frame id hid)
  reference r hr := (hagrees.reference r hr).trans (h.reference r hr)

theorem Keeps.rename_eq_self (h : ρ.Keeps s) {value : Value} (hvalue : s.Admits m value) :
    value.rename ρ.reference = value :=
  Value.MadeOf.rename_eq_self hvalue h.reference

end Renaming

theorem Footprint.size_le {binds : Nat → String → Prop} {s t : Store α} (h : Footprint binds s t) :
    s.frames.size ≤ t.frames.size ∧ s.closures.size ≤ t.closures.size := by
  constructor
  · by_contra hlt
    obtain ⟨frame, hframe, -⟩ := h.frames _ _ (Array.getElem?_eq_getElem (Nat.lt_of_not_le hlt))
    exact absurd (Array.getElem?_eq_some_iff.mp hframe).1 (Nat.lt_irrefl _)
  · by_contra hlt
    have hclosure := h.closures _ _ (Array.getElem?_eq_getElem (Nat.lt_of_not_le hlt))
    exact absurd (Array.getElem?_eq_some_iff.mp hclosure).1 (Nat.lt_irrefl _)

/-- A frame in which nothing may be bound stays as it is. -/
theorem Footprint.frame_eq {s t : Store α} (h : Footprint (fun _ _ => False) s t) {id : Nat}
    (hid : id < s.frames.size) : t.frames[id]? = s.frames[id]? := by
  have hframe := Array.getElem?_eq_getElem hid
  obtain ⟨frame, hframe', -, -, hsame⟩ := h.frames _ _ hframe
  rw [hframe', hframe, hsame fun _ => not_false]

namespace Store

variable {s t : Store α}

/-! ### Names in stores that grow -/

theorem lookup_congr_below {id : Nat} (h : ∀ id' ≤ id, t.frames[id']? = s.frames[id']?)
    (name : String) : t.lookup id name = s.lookup id name := by
  induction id using Nat.strongRecOn with
  | ind id ih =>
    rw [lookup_eq, lookup_eq, h id (Nat.le_refl id)]
    congr 1
    funext frame
    congr 2
    funext parent
    split
    · next hlt => rw [ih parent hlt fun id' hle => h id' (hle.trans hlt.le)]
    · rfl

theorem lookup_of_footprint (h : Footprint (fun _ _ => False) s t) {id : Nat}
    (hid : id < s.frames.size) (name : String) : t.lookup id name = s.lookup id name :=
  lookup_congr_below (fun _ hle => h.frame_eq (Nat.lt_of_le_of_lt hle hid)) name

theorem lookup_declare {id : Nat} (hid : id < s.frames.size) (target : String) (value : Value)
    (name : String) : (s.declare id target value).lookup id name
      = if target = name then some value else s.lookup id name := by
  have hbelow : ∀ parent < id, (s.declare id target value).lookup parent name
      = s.lookup parent name := by
    refine fun parent hlt => lookup_congr_below (fun id' hle => ?_) name
    rw [declare, Array.getElem?_modify, if_neg (by omega)]
  have hframe : s.frames[id]? = some s.frames[id] := Array.getElem?_eq_getElem hid
  have hdeclared : (s.declare id target value).frames[id]? = some { s.frames[id] with
      bindings := Entries.insert target value s.frames[id].bindings } := by
    rw [declare, Array.getElem?_modify, if_pos rfl, hframe, Option.map_some]
  rw [lookup_eq, lookup_eq s, hdeclared, hframe, Option.bind_some, Option.bind_some,
    Entries.find?_insert]
  by_cases htarget : target = name
  · subst htarget
    rw [if_pos Std.ReflCmp.compare_self, if_pos rfl, Option.some_or]
  · rw [if_neg fun heq => htarget (Std.LawfulEqOrd.eq_of_compare heq).symm, if_neg htarget]
    congr 2
    funext parent
    split
    · next hlt => exact hbelow parent hlt
    · rfl

theorem lookup_openFrame {parent : Nat} (hparent : parent < s.frames.size) (name : String) :
    (s.openFrame parent).2.lookup s.frames.size name = s.lookup parent name := by
  have hopened : (s.openFrame parent).2.frames[s.frames.size]? = some ⟨[], some parent⟩ :=
    Array.getElem?_push_size
  rw [lookup_eq, hopened, Option.bind_some, Option.bind_some, if_pos hparent]
  exact lookup_of_footprint (.openFrame parent s) hparent name

/-! ### New numbers -/

namespace Renamed

variable {ρ : Renaming}

theorem frame_lt (h : s.Renamed ρ t) {id : Nat} (hid : id < s.frames.size) :
    ρ.frame id < t.frames.size := by
  have hlt := ρ.strictMono_frame hid
  rwa [show ρ.frame s.frames.size = t.frames.size from h.nextFrame 0] at hlt

theorem reference_lt (h : s.Renamed ρ t) {r : Nat} (hr : r < s.closures.size) :
    ρ.reference r < t.closures.size := by
  have hclosure := h.closures r
  rw [Array.getElem?_eq_getElem hr, Option.map_some] at hclosure
  exact (Array.getElem?_eq_some_iff.mp hclosure).1

end Renamed

/-- The numbers below `least` as before, and all others in order from `next` on. -/
def numbersFrom (f : Nat → Nat) (least next n : Nat) : Nat :=
  if n < least then f n else n - least + next

theorem numbersFrom_of_lt {f : Nat → Nat} {least next n : Nat} (h : n < least) :
    numbersFrom f least next n = f n :=
  if_pos h

theorem numbersFrom_of_le {f : Nat → Nat} {least next n : Nat} (h : least ≤ n) :
    numbersFrom f least next n = n - least + next :=
  if_neg (Nat.not_lt.mpr h)

theorem strictMono_numbersFrom {f : Nat → Nat} {least next : Nat} (hf : StrictMono f)
    (hnext : ∀ n < least, f n < next) : StrictMono (numbersFrom f least next) := by
  intro a b hlt
  unfold numbersFrom
  split
  · next ha =>
    split
    · exact hf hlt
    · exact (hnext a ha).trans_le (Nat.le_add_left _ _)
  · rw [if_neg (by omega)]
    omega

theorem injective_numbersFrom {f : Nat → Nat} {least next : Nat} (hf : Function.Injective f)
    (hnext : ∀ n < least, f n < next) : Function.Injective (numbersFrom f least next) := by
  intro a b heq
  unfold numbersFrom at heq
  split at heq <;> split at heq
  · exact hf heq
  · have := hnext a ‹_›
    omega
  · have := hnext b ‹_›
    omega
  · omega

/-- Numbers that leave room in the second store for what it holds besides. -/
def Renamed.besideNumbers {ρ : Renaming} {t' : Store α} (h : s.Renamed ρ t)
    (hfoot : Footprint (fun _ _ => False) t t') : Renaming where
  frame := numbersFrom ρ.frame s.frames.size t'.frames.size
  reference := numbersFrom ρ.reference s.closures.size t'.closures.size
  strictMono_frame := strictMono_numbersFrom ρ.strictMono_frame fun _ hid =>
    (h.frame_lt hid).trans_le hfoot.size_le.1
  injective_reference := injective_numbersFrom ρ.injective_reference fun _ hr =>
    (h.reference_lt hr).trans_le hfoot.size_le.2

/-- The second store may grow by itself. -/
theorem Renamed.beside {ρ : Renaming} {t' : Store α} (h : s.Renamed ρ t) (hs : s.Sound m)
    (hfoot : Footprint (fun _ _ => False) t t') :
    ∃ ρ' : Renaming, s.Renamed ρ' t' ∧ ρ.Agrees ρ' s := by
  have hagrees : ρ.Agrees (h.besideNumbers hfoot) s :=
    ⟨fun _ => numbersFrom_of_lt, fun _ => numbersFrom_of_lt⟩
  have hframe (id : Nat) (hid : s.frames.size ≤ id) :
      (h.besideNumbers hfoot).frame id = id - s.frames.size + t'.frames.size :=
    numbersFrom_of_le hid
  have hreference (r : Nat) (hr : s.closures.size ≤ r) :
      (h.besideNumbers hfoot).reference r = r - s.closures.size + t'.closures.size :=
    numbersFrom_of_le hr
  refine ⟨h.besideNumbers hfoot, ⟨fun id => ?_, fun r => ?_, fun n => ?_, fun n => ?_⟩, hagrees⟩
  · rcases Nat.lt_or_ge id s.frames.size with hid | hid
    · rw [hagrees.frame id hid, hfoot.frame_eq (h.frame_lt hid), h.frames,
        Array.getElem?_eq_getElem hid, Option.map_some, Option.map_some,
        hagrees.rename_frame hs (Array.getElem?_eq_getElem hid)]
    · rw [Array.getElem?_eq_none hid, hframe id hid]
      exact Array.getElem?_eq_none (Nat.le_add_left _ _)
  · rcases Nat.lt_or_ge r s.closures.size with hr | hr
    · have hclosure := Array.getElem?_eq_getElem hr
      have hold := h.closures r
      rw [hclosure, Option.map_some] at hold
      rw [hagrees.reference r hr, hfoot.closures _ _ hold, hclosure, Option.map_some,
        Closure.rename, Closure.rename, hagrees.frame _ (hs.frame r _ hclosure)]
    · rw [Array.getElem?_eq_none hr, hreference r hr]
      exact Array.getElem?_eq_none (Nat.le_add_left _ _)
  · rw [hframe _ (Nat.le_add_right _ _), Nat.add_sub_cancel_left, Nat.add_comm]
  · rw [hreference _ (Nat.le_add_right _ _), Nat.add_sub_cancel_left, Nat.add_comm]

end Store

end Scriptlet
