import Scriptlet.Proofs.Host

/-! # Handles on frames

A host has handles on frames. It opens a frame inside that of a handle, copies a handle, and
declares names through handles. What a name means through a handle follows from the history of these
steps alone: it is the latest declaration in the nearest frame that has one, through whichever
handle and whenever it was made.
-/

namespace Scriptlet

open Grammar

/-- Steps on a growing number of handles, the latest one outermost. -/
inductive History : Nat → Type
  | start : History 1
  | newScope {n : Nat} (past : History n) (handle : Fin n) : History (n + 1)
  | clone {n : Nat} (past : History n) (handle : Fin n) : History (n + 1)
  | declare {n : Nat} (past : History n) (handle : Fin n) (name : String) (value : Value) :
    History n

/-- A store, and the frame that each handle is on. -/
structure Handles (n : Nat) where
  store : Store Token
  frames : Vector Nat n

namespace History

variable {n : Nat}

/-! ### What the steps do -/

def run : {n : Nat} → History n → Handles n
  | _, start => ⟨.initial, #v[Store.globalFrame]⟩
  | _, newScope past handle =>
    let ⟨store, frames⟩ := past.run
    ⟨(store.openFrame frames[handle]).2, frames.push (store.openFrame frames[handle]).1⟩
  | _, clone past handle =>
    let ⟨store, frames⟩ := past.run
    ⟨store, frames.push frames[handle]⟩
  | _, declare past handle name value =>
    let ⟨store, frames⟩ := past.run
    ⟨store.declare frames[handle] name value, frames⟩

/-! ### What the steps mean -/

/-- The number of frames. -/
def opened : {n : Nat} → History n → Nat
  | _, start => 1
  | _, newScope past _ => past.opened + 1
  | _, clone past _ | _, declare past _ _ _ => past.opened

/-- The frames from that of a handle outward. They are numbered as they are opened. -/
def chains : {n : Nat} → History n → Vector (List Nat) n
  | _, start => #v[[0]]
  | _, newScope past handle => past.chains.push (past.opened :: past.chains[handle])
  | _, clone past handle => past.chains.push past.chains[handle]
  | _, declare past _ _ _ => past.chains

/-- What the latest declaration of a name through any handle on the frame declares it to be. -/
def latest? : {n : Nat} → History n → Nat → String → Option Value
  | _, start, _, _ => none
  | _, newScope past _, frame, name | _, clone past _, frame, name => past.latest? frame name
  | _, declare past handle target value, frame, name =>
    if past.chains[handle].head? = some frame ∧ target = name then some value
    else past.latest? frame name

/-- The latest declaration in the nearest frame in which the name was ever declared. -/
def access? (history : History n) (handle : Fin n) (name : String) : Option Value :=
  history.chains[handle].findSome? (history.latest? · name)

end History

namespace Value.Builtin

theorem ofName?_name (builtin : Builtin) : ofName? builtin.name = some builtin := by
  cases builtin <;> rfl

theorem ofName?_eq_none {name : String} (h : ∀ builtin : Builtin, builtin.name ≠ name) :
    ofName? name = none :=
  List.find?_eq_none.mpr fun builtin _ => decide_eq_true_iff.not.mpr (h builtin)

end Value.Builtin

/-! ### Frames outward -/

namespace Store

variable {α : Type} {s t : Store α}

/-- What the frame itself binds the name to. -/
def binding? (s : Store α) (id : Nat) (name : String) : Option Value :=
  s.frames[id]?.bind fun frame => Entries.find? name frame.bindings

theorem binding?_openFrame (s : Store α) (parent id : Nat) (name : String) :
    (s.openFrame parent).2.binding? id name = s.binding? id name := by
  simp only [binding?, openFrame, Array.getElem?_push]
  split
  · next heq =>
    rw [heq, Array.getElem?_eq_none (Nat.le_refl _)]
    rfl
  · rfl

theorem binding?_declare (s : Store α) {frame : Nat} (h : frame < s.frames.size) (target : String)
    (value : Value) (id : Nat) (name : String) :
    (s.declare frame target value).binding? id name
      = if frame = id ∧ target = name then some value else s.binding? id name := by
  simp only [binding?, declare, Array.getElem?_modify]
  by_cases hid : frame = id
  · subst hid
    rw [if_pos rfl, Array.getElem?_eq_getElem h, Option.map_some, Option.bind_some,
      Option.bind_some, Entries.find?_insert]
    by_cases htarget : target = name
    · subst htarget
      rw [if_pos Std.ReflCmp.compare_self, if_pos ⟨rfl, rfl⟩]
    · rw [if_neg fun heq => htarget (Std.LawfulEqOrd.eq_of_compare heq).symm,
        if_neg fun hboth => htarget hboth.2]
  · rw [if_neg hid, if_neg fun hboth => hid hboth.1]

/-- The frames from one frame outward, each inside the next one. -/
inductive Outward (s : Store α) : Nat → List Nat → Prop
  | root {id : Nat} {frame : Frame} (hframe : s.frames[id]? = some frame)
      (hparent : frame.parent = none) : Outward s id [id]
  | inner {id parent : Nat} {frame : Frame} {ids : List Nat} (hframe : s.frames[id]? = some frame)
      (hparent : frame.parent = some parent) (hlt : parent < id) (hrest : Outward s parent ids) :
      Outward s id (id :: ids)

namespace Outward

theorem head?_eq {id : Nat} {ids : List Nat} (h : s.Outward id ids) : ids.head? = some id := by
  cases h <;> rfl

theorem lt_size {id : Nat} {ids : List Nat} (h : s.Outward id ids) : id < s.frames.size := by
  cases h with
  | root hframe _ | inner hframe _ _ _ => exact (Array.getElem?_eq_some_iff.mp hframe).1

theorem lookup_eq {id : Nat} {ids : List Nat} (h : s.Outward id ids) (name : String) :
    s.lookup id name = ids.findSome? (s.binding? · name) := by
  induction h with
  | root hframe hparent =>
    rw [Store.lookup_eq, hframe, List.findSome?_singleton, binding?, hframe, Option.bind_some,
      hparent, Option.bind_none, Option.or_none, Option.bind_some]
  | inner hframe hparent hlt _ ih =>
    rw [Store.lookup_eq, hframe, List.findSome?_cons, ← ih, binding?, hframe, Option.bind_some,
      hparent, Option.bind_some, if_pos hlt, Option.bind_some]
    cases Entries.find? name _ <;> rfl

theorem of_footprint {binds : Nat → String → Prop} (hfoot : Footprint binds s t) {id : Nat}
    {ids : List Nat} (h : s.Outward id ids) : t.Outward id ids := by
  induction h with
  | root hframe hparent =>
    obtain ⟨frame', hframe', hsame, -⟩ := hfoot.frames _ _ hframe
    exact .root hframe' (hsame.trans hparent)
  | inner hframe hparent hlt _ ih =>
    obtain ⟨frame', hframe', hsame, -⟩ := hfoot.frames _ _ hframe
    exact .inner hframe' (hsame.trans hparent) hlt ih

end Outward

end Store

namespace History

/-! ### Handles and frames -/

/-- The store is the one that the history tells of. Every step keeps this. -/
structure Tracks {n : Nat} (history : History n) : Prop where
  size : history.run.store.frames.size = history.opened
  outward : ∀ handle : Fin n,
    history.run.store.Outward history.run.frames[handle] history.chains[handle]
  binding : ∀ id name, history.run.store.binding? id name = history.latest? id name

theorem forall_push {β γ : Type} {P : β → γ → Prop} {n : Nat} {xs : Vector β n} {ys : Vector γ n}
    (h : ∀ i : Fin n, P xs[i] ys[i]) {x : β} {y : γ} (hlast : P x y) (i : Fin (n + 1)) :
    P (xs.push x)[i] (ys.push y)[i] := by
  simp only [Fin.getElem_fin, Vector.getElem_push]
  split
  · next hlt => exact h ⟨i, hlt⟩
  · exact hlast

theorem tracks_start : start.Tracks where
  size := rfl
  outward handle := by
    obtain rfl : handle = 0 := Subsingleton.elim _ _
    exact .root rfl rfl
  binding id name := by
    cases id <;> rfl

variable {n : Nat} {past : History n}

namespace Tracks

variable (h : past.Tracks) (handle : Fin n)

include h

theorem newScope : (newScope past handle).Tracks where
  size := by
    simp only [run, opened, Store.openFrame, Array.size_push, h.size]
  outward := by
    let parent := past.run.frames[handle]
    have hfoot : Footprint (fun _ _ => False) past.run.store (past.run.store.openFrame parent).2 :=
      .openFrame parent past.run.store
    have hframe : (past.run.store.openFrame parent).2.frames[past.run.store.frames.size]?
        = some ⟨[], some parent⟩ := Array.getElem?_push_size
    have hlt : parent < past.run.store.frames.size := (h.outward handle).lt_size
    refine forall_push (fun other => (h.outward other).of_footprint hfoot) ?_
    rw [← h.size]
    exact .inner hframe rfl hlt ((h.outward handle).of_footprint hfoot)
  binding id name := (Store.binding?_openFrame _ _ id name).trans (h.binding id name)

theorem clone : (clone past handle).Tracks where
  size := h.size
  outward := forall_push h.outward (h.outward handle)
  binding := h.binding

theorem declare (name : String) (value : Value) : (declare past handle name value).Tracks where
  size := by
    simp only [run, opened, Store.declare, Array.size_modify, h.size]
  outward other := by
    have hfoot : Footprint (fun _ _ => True) past.run.store
        (past.run.store.declare past.run.frames[handle] name value) :=
      .declare trivial value past.run.store
    exact (h.outward other).of_footprint hfoot
  binding id other := by
    have hhead := (h.outward handle).head?_eq
    refine (Store.binding?_declare _ (h.outward handle).lt_size name value id other).trans ?_
    simp only [latest?, hhead, Option.some.injEq, h.binding]

end Tracks

theorem tracks : {n : Nat} → (history : History n) → history.Tracks
  | _, start => tracks_start
  | _, newScope past handle => past.tracks.newScope handle
  | _, clone past handle => past.tracks.clone handle
  | _, declare past handle name value => past.tracks.declare handle name value

/-- A name means what the history of the handles tells, and evaluates to that; a name that it does
not tell of is that of a built-in function, or unknown. -/
theorem lookup_of_history (history : History n) (handle : Fin n) (name : String) :
    history.run.store.lookup history.run.frames[handle] name = history.access? handle name ∧
      ∀ (limit : Nat) (label : Token),
        let evaluation := (Expr.name label name).run limit history.run.frames[handle]
          history.run.store
        (∀ value, history.access? handle name = some value →
          evaluation = some (.ok value, history.run.store)) ∧
        (history.access? handle name = none →
          (∀ builtin : Value.Builtin, builtin.name = name →
            evaluation = some (.ok (.builtin builtin), history.run.store)) ∧
          ((∀ builtin : Value.Builtin, builtin.name ≠ name) →
            evaluation = some (.error ⟨.unknownName name, label.span⟩, history.run.store))) := by
  have htracks := history.tracks
  have hlookup : history.run.store.lookup history.run.frames[handle] name
      = history.access? handle name := by
    rw [(htracks.outward handle).lookup_eq, access?]
    simp only [htracks.binding]
  refine ⟨hlookup, fun limit label => ?_⟩
  intro evaluation
  have hrun : evaluation = _ := Run.finish_apply _ _
  rw [Expr.eval, Run.name_apply, hlookup, Option.map_some] at hrun
  refine ⟨fun value hvalue => ?_, fun hnone => ⟨fun builtin hname => ?_, fun hname => ?_⟩⟩
  · rw [hrun, hvalue]
    rfl
  · subst hname
    rw [hrun, hnone, Value.Builtin.ofName?_name]
    rfl
  · rw [hrun, hnone, Value.Builtin.ofName?_eq_none hname]
    rfl

/-- A frame is seen from inside as it is now, whichever handle it was changed through. -/
example : (((start.newScope 0).clone 0).declare 2 "x" (.int 1)).access? 1 "x" = some (.int 1) := by
  decide

end History

end Scriptlet
