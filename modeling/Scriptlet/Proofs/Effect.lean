import Scriptlet.Evaluation.Call

/-! # Effects of runs

What a run may do to the store: which names of which frames it may bind. Everything else that was
there stays, in particular every closure, and the text written before has no influence.
-/

namespace Scriptlet

variable {α β γ ρ : Type}

/-- Names are looked up in the frames alone. -/
theorem Store.chain_congr {store : Store α} {store' : Store β}
    (h : store'.frames = store.frames) (id : Nat) : store'.chain id = store.chain id := by
  induction id using Nat.strongRecOn with
  | ind id ih =>
    rw [chain, chain, h]
    cases store.frames[id]? with
    | none => rfl
    | some frame =>
      dsimp only
      cases frame.parent with
      | none => rfl
      | some parent =>
        dsimp only
        split
        · next hlt => rw [ih parent hlt]
        · rfl

theorem Store.lookup_congr {store : Store α} {store' : Store β}
    (h : store'.frames = store.frames) (id : Nat) (name : String) :
    store'.lookup id name = store.lookup id name := by
  rw [lookup, lookup, chain_congr h]

/-- The same store with some text written before its own. -/
def Store.behind (earlier : String) (store : Store α) : Store α :=
  { store with output := earlier ++ store.output }

/-- From one store to another, frames and closures are only added, and names are bound in frames
only where `binds` allows it. -/
structure Footprint (binds : Nat → String → Prop) (before after : Store α) : Prop where
  frames : ∀ (id : Nat) (frame : Frame), before.frames[id]? = some frame →
    ∃ frame', after.frames[id]? = some frame' ∧ frame'.parent = frame.parent ∧
      (∀ name, ¬binds id name →
        Entries.find? name frame'.bindings = Entries.find? name frame.bindings) ∧
      ((∀ name, ¬binds id name) → frame' = frame)
  closures : ∀ (id : Nat) (closure : Closure α), before.closures[id]? = some closure →
    after.closures[id]? = some closure

namespace Footprint

variable {binds : Nat → String → Prop} {s t u : Store α}

theorem of_frames_eq (hframes : t.frames = s.frames)
    (hclosures : ∀ (id : Nat) (closure : Closure α), s.closures[id]? = some closure →
      t.closures[id]? = some closure) :
    Footprint binds s t :=
  ⟨fun _ frame h => ⟨frame, hframes ▸ h, rfl, fun _ _ => rfl, fun _ => rfl⟩, hclosures⟩

theorem refl (s : Store α) : Footprint binds s s :=
  of_frames_eq rfl fun _ _ h => h

theorem trans (hst : Footprint binds s t) (htu : Footprint binds t u) : Footprint binds s u where
  frames := by
    intro id frame h
    obtain ⟨frame₁, h₁, hparent₁, hfind₁, hsame₁⟩ := hst.frames id frame h
    obtain ⟨frame₂, h₂, hparent₂, hfind₂, hsame₂⟩ := htu.frames id frame₁ h₁
    refine ⟨frame₂, h₂, hparent₂.trans hparent₁, ?_, ?_⟩
    · intro name hname
      rw [hfind₂ name hname, hfind₁ name hname]
    · intro hnone
      rw [hsame₂ hnone, hsame₁ hnone]
  closures id closure h := htu.closures id closure (hst.closures id closure h)

/-- Only what is allowed for frames that were there before matters. -/
theorem mono {binds' : Nat → String → Prop} (h : Footprint binds s t)
    (hle : ∀ id name, id < s.frames.size → binds id name → binds' id name) :
    Footprint binds' s t where
  frames := by
    intro id frame hframe
    have hid : id < s.frames.size := (Array.getElem?_eq_some_iff.mp hframe).1
    obtain ⟨frame', h', hparent, hfind, hsame⟩ := h.frames id frame hframe
    refine ⟨frame', h', hparent, ?_, ?_⟩
    · exact fun name hname => hfind name fun hbinds => hname (hle id name hid hbinds)
    · exact fun hnone => hsame fun name hbinds => hnone name (hle id name hid hbinds)
  closures := h.closures

theorem declare {id : Nat} {name : String} (h : binds id name) (value : Value) (s : Store α) :
    Footprint binds s (s.declare id name value) where
  frames := by
    intro other frame hother
    by_cases hid : other = id
    · subst hid
      refine ⟨{ frame with bindings := Entries.insert name value frame.bindings }, ?_, rfl, ?_, ?_⟩
      · simp [Store.declare, Array.getElem?_modify, hother]
      · intro name' hname'
        rw [Entries.find?_insert, if_neg]
        intro heq
        exact hname' (Std.LawfulEqOrd.eq_of_compare heq ▸ h)
      · exact fun hnone => absurd h (hnone name)
    · refine ⟨frame, ?_, rfl, fun _ _ => rfl, fun _ => rfl⟩
      simp [Store.declare, Array.getElem?_modify, Ne.symm hid, hother]
  closures _ _ h := h

theorem close (closure : Closure α) (s : Store α) : Footprint binds s (s.close closure).2 := by
  refine of_frames_eq rfl fun id other h => ?_
  have hid : id < s.closures.size := (Array.getElem?_eq_some_iff.mp h).1
  simpa [Store.close, Array.getElem?_push, Nat.ne_of_lt hid] using h

theorem openFrame (parent : Nat) (s : Store α) : Footprint binds s (s.openFrame parent).2 where
  frames := by
    intro id frame h
    have hid : id < s.frames.size := (Array.getElem?_eq_some_iff.mp h).1
    refine ⟨frame, ?_, rfl, fun _ _ => rfl, fun _ => rfl⟩
    simpa [Store.openFrame, Array.getElem?_push, Nat.ne_of_lt hid] using h
  closures _ _ h := h

end Footprint

/-- Wherever it starts, a run that ends binds no names but those that `binds` allows, and it runs
the same way whatever was written before, which stays in front of what the run writes. -/
structure Effect (binds : Nat → String → Prop) (run : Store α → Option (ρ × Store α)) : Prop where
  footprint : ∀ store result after, run store = some (result, after) → Footprint binds store after
  appends : ∀ earlier store, run (store.behind earlier)
    = (run store).map fun (result, after) => (result, after.behind earlier)

namespace Run

theorem bind_apply (x : Run α β) (f : β → Run α γ) (store : Store α) :
    (x >>= f) store = (x store).bind fun (result, after) =>
      match result with
      | .ok value => f value after
      | .error interrupt => some (.error interrupt, after) := by
  change (x store).bind _ = _
  congr 1
  funext ⟨result, after⟩
  cases result <;> rfl

theorem bind_of_ok {x : Run α β} {f : β → Run α γ} {store after : Store α} {value : β}
    (hx : x store = some (.ok value, after)) : (x >>= f) store = f value after := by
  rw [bind_apply, hx]
  rfl

theorem bind_of_error {x : Run α β} {f : β → Run α γ} {store after : Store α}
    {interrupt : Interrupt α} (hx : x store = some (.error interrupt, after)) :
    (x >>= f) store = some (.error interrupt, after) := by
  rw [bind_apply, hx]
  rfl

theorem ofExcept_ok (site : α) (value : β) (store : Store α) :
    ofExcept site (.ok value) store = some (.ok value, store) :=
  rfl

/-- How a call ends, given how the body of the function ends. -/
def atCall : Except (Interrupt α) Value → Except (Interrupt α) Value
  | .error (.returned value) => .ok value
  | result => result

theorem name_apply (site : α) (frame : Nat) (name : String) (store : Store α) :
    Run.name site frame name store = some (
      ((store.lookup frame name).or ((Value.Builtin.ofName? name).map .builtin)).elim
        (.error (.failed (.unknownName name) site)) .ok, store) := by
  have hget : (get : Run α (Store α)) store = some (.ok store, store) := rfl
  rw [Run.name, bind_of_ok hget]
  cases store.lookup frame name with
  | some value => rfl
  | none => cases Value.Builtin.ofName? name <;> rfl

theorem untilReturn_apply (run : Run α Value) (store : Store α) :
    untilReturn run store = (run store).map fun (result, after) => (atCall result, after) := by
  change (run store).bind _ = _
  cases run store with
  | none => rfl
  | some first =>
    obtain ⟨result, after⟩ := first
    rcases result with (_ | _) | _ <;> rfl

theorem finish_apply (run : Run Token Value) (store : Store Token) :
    run.finish store = (run store).map fun (result, after) => (Interrupt.finish result, after) := by
  change (run store).bind _ = _
  cases run store <;> rfl

end Run

theorem Grammar.Program.run_of_errors_eq_nil {program : Program Token} (h : program.errors = [])
    (limit frame : Nat) (store : Store Token) :
    program.run limit frame store
      = (evalStatements (Run.call limit) frame .null program.statements store).map
          fun (result, after) => (Interrupt.finish result, after) := by
  rw [Program.run, h]
  exact Run.finish_apply _ store

namespace Effect

variable {binds : Nat → String → Prop}

/-- A run that always ends, in a way that does not depend on what was written. -/
theorem of_step {run : Store α → Option (ρ × Store α)} {result : Store α → ρ}
    {next : Store α → Store α} (hrun : ∀ store, run store = some (result store, next store))
    (hfoot : ∀ store, Footprint binds store (next store))
    (hresult : ∀ earlier store, result (store.behind earlier) = result store)
    (hnext : ∀ earlier store, next (store.behind earlier) = (next store).behind earlier) :
    Effect binds run where
  footprint := by
    intro store result' after h
    cases (hrun store).symm.trans h
    exact hfoot store
  appends earlier store := by rw [hrun, hrun, hresult, hnext, Option.map_some]

theorem mono {binds' : Nat → String → Prop} {run : Store α → Option (ρ × Store α)}
    (h : Effect binds run) (hle : ∀ id name, binds id name → binds' id name) :
    Effect binds' run where
  footprint store result after hrun :=
    (h.footprint store result after hrun).mono fun id name _ => hle id name
  appends := h.appends

theorem pure (value : β) : Effect binds (Pure.pure value : Run α β) :=
  of_step (fun _ => rfl) Footprint.refl (fun _ _ => rfl) fun _ _ => rfl

theorem throw (interrupt : Interrupt α) : Effect binds (MonadExcept.throw interrupt : Run α β) :=
  of_step (fun _ => rfl) Footprint.refl (fun _ _ => rfl) fun _ _ => rfl

theorem endless : Effect binds (Run.endless : Run α β) :=
  ⟨nofun, fun _ _ => rfl⟩

theorem bind {x : Run α β} {f : β → Run α γ} (hx : Effect binds x)
    (hf : ∀ value, Effect binds (f value)) : Effect binds (x >>= f) where
  footprint := by
    intro store result after h
    rw [Run.bind_apply, Option.bind_eq_some_iff] at h
    obtain ⟨⟨result₁, store₁⟩, hfirst, hrest⟩ := h
    have hfoot := hx.footprint store result₁ store₁ hfirst
    cases result₁ with
    | ok value => exact hfoot.trans ((hf value).footprint store₁ result after hrest)
    | error interrupt =>
      cases hrest
      exact hfoot
  appends := by
    intro earlier store
    rw [Run.bind_apply, Run.bind_apply, hx.appends]
    cases x store with
    | none => rfl
    | some first =>
      obtain ⟨result, after⟩ := first
      cases result with
      | ok value => exact (hf value).appends earlier after
      | error interrupt => rfl

theorem ofExcept (site : α) (result : Except Fault β) :
    Effect binds (Run.ofExcept site result : Run α β) := by
  cases result with
  | ok value => exact pure value
  | error fault => exact throw _

theorem get {f : Store α → Run α β} (hf : ∀ store, Effect binds (f store))
    (hsame : ∀ earlier store, f (store.behind earlier) = f store) :
    Effect binds (MonadState.get >>= f : Run α β) where
  footprint store := (hf store).footprint store
  appends := by
    intro earlier store
    change f (store.behind earlier) (store.behind earlier) = (f store store).map _
    rw [hsame]
    exact (hf store).appends earlier store

theorem name (site : α) (frame : Nat) (name : String) :
    Effect binds (Run.name site frame name) := by
  refine get (fun store => ?_) fun earlier store => ?_
  · split
    · exact pure _
    · split
      · exact pure _
      · exact throw _
  · have hframes : (store.behind earlier).frames = store.frames := rfl
    rw [Store.lookup_congr hframes]

theorem close (closure : Closure α) : Effect binds (Run.close closure) :=
  of_step (fun _ => rfl) (Footprint.close closure) (fun _ _ => rfl) fun _ _ => rfl

theorem declare {frame : Nat} {name : String} (h : binds frame name) (value : Value) :
    Effect binds (Run.declare frame name value : Run α Unit) :=
  of_step (fun _ => rfl) (Footprint.declare h value) (fun _ _ => rfl) fun _ _ => rfl

theorem declareAll {frame : Nat} (h : ∀ name, binds frame name) :
    ∀ bindings : List (Grammar.Ident α × Value), Effect binds (Run.declareAll frame bindings)
  | [] => pure ()
  | (_, argument) :: rest => (declare (h _) argument).bind fun _ => declareAll h rest

theorem builtin (site : α) (function : Value.Builtin) (arguments : List Value) :
    Effect binds (Run.builtin site function arguments) := by
  unfold Run.builtin
  split
  · refine bind ?_ fun _ => ofExcept site _
    refine of_step (fun _ => rfl) (fun store => ?_) (fun _ _ => rfl) fun earlier store => ?_
    · exact Footprint.of_frames_eq rfl fun _ _ h => h
    · rw [Store.write, Store.write, Store.behind, Store.behind, String.append_assoc]
      rfl
  · exact ofExcept site _

theorem map {σ : Type} {run : Store α → Option (ρ × Store α)}
    {run' : Store α → Option (σ × Store α)} {f : ρ → σ} (h : Effect binds run)
    (hrun : ∀ store, run' store = (run store).map fun (result, after) => (f result, after)) :
    Effect binds run' where
  footprint := by
    intro store result after hend
    rw [hrun, Option.map_eq_some_iff] at hend
    obtain ⟨⟨result', after'⟩, hend, heq⟩ := hend
    cases heq
    exact h.footprint store result' after hend
  appends := by
    intro earlier store
    rw [hrun, hrun, h.appends, Option.map_map, Option.map_map]
    rfl

theorem untilReturn {run : Run α Value} (h : Effect binds run) :
    Effect binds (Run.untilReturn run) :=
  h.map (Run.untilReturn_apply run)

theorem finish {run : Run Token Value} (h : Effect binds run) : Effect binds run.finish :=
  h.map run.finish_apply

/-- What is bound in a frame that a run has opened itself was not there before. -/
theorem scope (parent : Nat) {body : Nat → Run α β}
    (hbody : ∀ frame, Effect (fun id _ => id = frame) (body frame)) :
    Effect (fun _ _ => False) (Run.openFrame parent >>= body) where
  footprint := by
    intro store result after h
    have hrest := (hbody store.frames.size).footprint (store.openFrame parent).2 result after h
    exact ((Footprint.openFrame parent store).trans hrest).mono
      fun id _ hlt heq => absurd heq (Nat.ne_of_lt hlt)
  appends := by
    intro earlier store
    exact (hbody store.frames.size).appends earlier (store.openFrame parent).2

end Effect

end Scriptlet
