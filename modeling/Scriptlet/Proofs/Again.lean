import Scriptlet.Proofs.Follow
import Scriptlet.Proofs.Footprint
import Scriptlet.Proofs.Soundness

/-! # Calls made again

A call leaves nothing behind that a later call could see: the frames and closures that it made are
garbage but for those in its result, and what was there before is as it was. So the same call, made
again, ends in the same way, with new numbers for what it makes.
-/

namespace Scriptlet

variable {α : Type} {m : Material α}

/-! ### Numbers behind all others -/

def shiftFrom (least step n : Nat) : Nat :=
  if n < least then n else n + step

theorem shiftFrom_of_lt {least step n : Nat} (h : n < least) : shiftFrom least step n = n :=
  if_pos h

theorem shiftFrom_of_le {least step n : Nat} (h : least ≤ n) :
    shiftFrom least step n = n + step :=
  if_neg (Nat.not_lt.mpr h)

theorem strictMono_shiftFrom (least step : Nat) : StrictMono (shiftFrom least step) := by
  intro a b hlt
  unfold shiftFrom
  split <;> split <;> omega

/-- What is in the first store keeps its number, and anything behind it gets a number behind what is
in the second store. -/
structure Renaming.Past (ρ : Renaming) (s t : Store α) : Prop where
  frame_eq : ∀ id < s.frames.size, ρ.frame id = id
  frame_le : ∀ id, s.frames.size ≤ id → t.frames.size ≤ ρ.frame id
  reference_eq : ∀ r < s.closures.size, ρ.reference r = r
  reference_le : ∀ r, s.closures.size ≤ r → t.closures.size ≤ ρ.reference r

namespace Store

variable {s t : Store α}

def renumbering (s t : Store α) : Renaming where
  frame := shiftFrom s.frames.size (t.frames.size - s.frames.size)
  reference := shiftFrom s.closures.size (t.closures.size - s.closures.size)
  strictMono_frame := strictMono_shiftFrom _ _
  injective_reference := (strictMono_shiftFrom _ _).injective

theorem renumbering_past (s t : Store α) : (s.renumbering t).Past s t where
  frame_eq _ h := shiftFrom_of_lt h
  frame_le id h := by
    simp only [renumbering, shiftFrom_of_le h]
    omega
  reference_eq _ h := shiftFrom_of_lt h
  reference_le r h := by
    simp only [renumbering, shiftFrom_of_le h]
    omega

variable {ρ : Renaming}

theorem Admits.rename_eq_self {value : Value} (h : s.Admits m value) (hρ : ρ.Past s t) :
    value.rename ρ.reference = value :=
  Value.MadeOf.rename_eq_self h hρ.reference_eq

theorem Sound.rename_frame (h : s.Sound m) (hρ : ρ.Past s t) {id : Nat} {frame : Frame}
    (hframe : s.frames[id]? = some frame) : frame.rename ρ = frame := by
  have hbindings : Entries.mapValues (Value.rename ρ.reference) frame.bindings
      = frame.bindings := by
    refine (List.map_congr_left fun entry hentry => ?_).trans (List.map_id' _)
    rw [(h.binding id frame hframe entry hentry).rename_eq_self hρ]
  have hparent : frame.parent.map ρ.frame = frame.parent := by
    cases hparent : frame.parent with
    | none => rfl
    | some parent =>
      have hid : id < s.frames.size := (Array.getElem?_eq_some_iff.mp hframe).1
      have hlt := h.parent id frame parent hframe hparent
      rw [Option.map_some, hρ.frame_eq parent (hlt.trans hid)]
  rw [Frame.rename, hbindings, hparent]

theorem Sound.rename_closure (h : s.Sound m) (hρ : ρ.Past s t) {r : Nat} {closure : Closure α}
    (hclosure : s.closures[r]? = some closure) : closure.rename ρ = closure := by
  rw [Closure.rename, hρ.frame_eq closure.frame (h.frame r closure hclosure)]

/-- A store that has got more frames and closures holds the old ones under their old numbers. -/
theorem Sound.renamed (hs : s.Sound m) (hframes : s.frames.size ≤ t.frames.size)
    (hclosures : s.closures.size ≤ t.closures.size) (h : Footprint (fun _ _ => False) s t) :
    s.Renamed (s.renumbering t) t := by
  have hpast := renumbering_past s t
  refine ⟨fun id => ?_, fun r => ?_, fun n => ?_, fun n => ?_⟩
  · -- A number that is free in the first store is renamed to one that is free in the second.
    cases hframe : s.frames[id]? with
    | some frame =>
      obtain ⟨frame', hframe', -, -, hsame⟩ := h.frames id frame hframe
      have hid : id < s.frames.size := (Array.getElem?_eq_some_iff.mp hframe).1
      rw [hpast.frame_eq id hid, hframe', hsame fun _ => not_false, Option.map_some,
        hs.rename_frame hpast hframe]
    | none =>
      have hid : s.frames.size ≤ id := Array.getElem?_eq_none_iff.mp hframe
      exact Array.getElem?_eq_none_iff.mpr (hpast.frame_le id hid)
  · cases hclosure : s.closures[r]? with
    | some closure =>
      have hr : r < s.closures.size := (Array.getElem?_eq_some_iff.mp hclosure).1
      rw [hpast.reference_eq r hr, h.closures r closure hclosure, Option.map_some,
        hs.rename_closure hpast hclosure]
    | none =>
      have hr : s.closures.size ≤ r := Array.getElem?_eq_none_iff.mp hclosure
      exact Array.getElem?_eq_none_iff.mpr (hpast.reference_le r hr)
  · simp only [renumbering, shiftFrom_of_le (Nat.le_add_right _ n)]
    omega
  · simp only [renumbering, shiftFrom_of_le (Nat.le_add_right _ n)]
    omega

/-- The store before anything was written. -/
def silent (s : Store α) : Store α :=
  { s with output := "" }

theorem behind_silent (s : Store α) : s.silent.behind s.output = s := by
  rw [behind, silent, String.append_empty]

end Store

/-- A run and what it writes, apart from what was written before. -/
theorem Effect.of_silent {β : Type} {binds : Nat → String → Prop} {run : Run α β}
    (h : Effect binds run) {s t : Store α} {result : Except (Interrupt α) β}
    (hrun : run s = some (result, t)) :
    ∃ quiet, run s.silent = some (result, quiet) ∧ t = quiet.behind s.output := by
  have happends := h.appends s.output s.silent
  rw [Store.behind_silent, hrun] at happends
  obtain ⟨⟨result', quiet⟩, hquiet, heq⟩ := Option.map_eq_some_iff.mp happends.symm
  cases heq
  exact ⟨quiet, hquiet, rfl⟩

namespace Grammar

/-- A call that ends, made again in the store that it left, ends in the same way: with the same
fault at the same place, or with the same value but for the numbers of what was made on the way. It
writes the same text again, and its value is shown as the same text. -/
theorem call_again {limit : Nat} {site : α} {function : Value} {arguments : List Value}
    {store after : Store α} {result : Except (Interrupt α) Value} (hstore : store.Reachable .any)
    (hfunction : store.Admits .any function)
    (harguments : ∀ argument ∈ arguments, store.Admits .any argument)
    (hcall : Run.call limit site function arguments store = some (result, after)) :
    ∃ (ρ : Renaming) (again : Store α) (text : String),
      Run.call limit site function arguments after
          = some (renameEnd ρ (Value.rename ρ.reference) result, again) ∧
        ρ.Past store after ∧ after.Renamed ρ again ∧
        (∀ value, again.render (value.rename ρ.reference) = after.render value) ∧
        after.output = store.output ++ text ∧ again.output = after.output ++ text := by
  have heffect := effect_call limit site function arguments
  have hleads : store.Leads .any after :=
    (stays_call limit site function arguments store hstore hfunction harguments).leads hcall
  have hrenamed := hstore.sound.renamed hleads.frames hleads.closures
    (heffect.footprint store result after hcall)
  have hpast := Store.renumbering_past store after
  have hsame : arguments.map (Value.rename (store.renumbering after).reference) = arguments :=
    (List.map_congr_left fun argument h => (harguments argument h).rename_eq_self hpast).trans
      (List.map_id' _)
  -- Both runs start from a store without output, so that what they write can be compared.
  obtain ⟨quiet, hquiet, rfl⟩ := heffect.of_silent hcall
  obtain ⟨quiet', hquiet', hrenamed', hout⟩ := follows_call _ limit site function arguments _ _
    (hrenamed.withOutput "" "") rfl result quiet hquiet
  rw [hfunction.rename_eq_self hpast, hsame] at hquiet'
  have hagain := heffect.appends (quiet.behind store.output).output
    (quiet.behind store.output).silent
  rw [Store.behind_silent, Store.silent, hquiet', Option.map_some] at hagain
  have hafter := hrenamed'.withOutput (store.output ++ quiet.output)
    (store.output ++ quiet.output ++ quiet'.output)
  have houtput := congrArg (store.output ++ quiet.output ++ ·) hout
  exact ⟨_, _, quiet.output, hagain, hpast, hafter, hafter.render, rfl, houtput⟩

/-- The first function of a session, which writes its argument and makes another function. -/
theorem call_again_closure :
    let source := "let make = fn(n) \x7b puts(n); fn() \x7b n \x7d \x7d;"
    let call := Run.call 1 (.eofAt 0) (.function 0) [.string "a"]
    ∃ (answer : Except Failure Value) (store after : Store Token),
      (Program.ofSource source).run 1 Store.globalFrame .initial = some (answer, store) ∧
        store.Reachable .any ∧ store.Admits .any (.function 0) ∧
        (∀ argument ∈ [Value.string "a"], store.Admits .any argument) ∧
        call store = some (.ok (.function 1), after) ∧ after.output = "a\n" ∧
        ∃ (ρ : Renaming) (again : Store Token) (text : String),
          call after = some (renameEnd ρ (Value.rename ρ.reference) (.ok (.function 1)), again) ∧
            ρ.Past store after ∧ after.Renamed ρ again ∧
            (∀ value, again.render (value.rename ρ.reference) = after.render value) ∧
            after.output = store.output ++ text ∧ again.output = after.output ++ text := by
  intro source call
  have hsession : ((Program.ofSource source).run 1 Store.globalFrame .initial).map
      (fun ending => (ending.2.closures.size,
        (call ending.2).map fun ending => (ending.1.toOption, ending.2.output)))
        = some (1, some (some (.function 1), "a\n")) := by decide +kernel
  obtain ⟨⟨answer, store⟩, hrun, hstore⟩ := Option.map_eq_some_iff.mp hsession
  obtain ⟨hsize, hend⟩ := Prod.mk.inj hstore
  obtain ⟨⟨result, after⟩, hcall, hafter⟩ := Option.map_eq_some_iff.mp hend
  obtain ⟨hresult, houtput⟩ := Prod.mk.inj hafter
  obtain rfl : result = .ok (.function 1) := by
    cases result with
    | ok value => exact congrArg Except.ok (Option.some.inj hresult)
    | error interrupt => cases hresult
  have hreachable := (Program.leads_of_run (m := .any) (fun _ _ => trivial) .initial Nat.one_pos
    hrun).1.reachable
  have hfunction : store.Admits .any (.function 0) := .function (hsize ▸ Nat.one_pos)
  have harguments : ∀ argument ∈ [Value.string "a"], store.Admits .any argument :=
    List.forall_mem_singleton.mpr (.string trivial)
  exact ⟨answer, store, after, hrun, hreachable, hfunction, harguments, hcall, houtput,
    call_again hreachable hfunction harguments hcall⟩

end Grammar

end Scriptlet
