import Mathlib.Logic.Relation
import Scriptlet.Proofs.Soundness

/-! # Hosts

A host embeds the interpreter. It owns frames, it has values that came out of evaluation, and it
puts such values into frames as it likes. Whatever it does, frames stay inside the frames that they
were opened in, functions refer to frames that are there, and each function comes from one
evaluation of one literal.
-/

namespace Scriptlet

open Grammar Relation

variable {α : Type}

/-! ### Parts of values -/

namespace Value

/-- The second value is the first one, or occurs in it at some depth. -/
inductive Part : Value → Value → Prop
  | refl (value : Value) : Part value value
  | element {elements : List Value} {element part : Value} (hmem : element ∈ elements)
      (h : Part element part) : Part (.array elements) part
  | entry {entries : List (Key × Value)} {entry : Key × Value} {part : Value}
      (hmem : entry ∈ entries) (h : Part entry.2 part) : Part (.map entries) part

theorem MadeOf.part {text : String → Prop} {reference : Nat → Prop} {value part : Value}
    (h : value.MadeOf text reference) (hpart : Part value part) : part.MadeOf text reference := by
  induction hpart with
  | refl _ => exact h
  | element hmem _ ih =>
    cases h with
    | array helements => exact ih (helements _ hmem)
  | entry hmem _ ih =>
    cases h with
    | map _ hvalues => exact ih (hvalues _ hmem)

theorem MadeOf.reference_of_part {text : String → Prop} {reference : Nat → Prop} {value : Value}
    {r : Nat} (h : value.MadeOf text reference) (hpart : Part value (.function r)) :
    reference r := by
  cases h.part hpart with
  | function hr => exact hr

end Value

/-! ### Looking names up step by step -/

namespace Store

/-- Looks a name up in a frame, with so many steps at most. There is no answer if the steps do not
suffice, or if they lead to a frame that is not there. -/
def lookupWithin (s : Store α) (name : String) : Nat → Nat → Option (Option Value)
  | 0, _ => none
  | steps + 1, id => do
    let frame ← s.frames[id]?
    match Entries.find? name frame.bindings, frame.parent with
    | some value, _ => some (some value)
    | none, none => some none
    | none, some parent => s.lookupWithin name steps parent

theorem lookup_eq (s : Store α) (id : Nat) (name : String) :
    s.lookup id name = s.frames[id]?.bind fun frame =>
      (Entries.find? name frame.bindings).or <| frame.parent.bind fun parent =>
        if parent < id then s.lookup parent name else none := by
  unfold lookup
  rw [chain]
  cases s.frames[id]? with
  | none => rfl
  | some frame =>
    rw [List.findSome?_cons, Option.bind_some]
    cases Entries.find? name frame.bindings with
    | some value => rfl
    | none =>
      cases frame.parent with
      | none => rfl
      | some parent =>
        dsimp only [Option.none_or, Option.bind_some]
        split <;> rfl

/-- Every step leads to an earlier frame. -/
theorem Sound.lookupWithin_eq {m : Material α} {s : Store α} (h : s.Sound m) (name : String)
    {steps id : Nat} (hid : id < s.frames.size) (hsteps : id < steps) :
    s.lookupWithin name steps id = some (s.lookup id name) := by
  induction steps generalizing id with
  | zero => exact absurd hsteps (Nat.not_lt_zero id)
  | succ steps ih =>
    have hframe := Array.getElem?_eq_getElem hid
    rw [lookupWithin, lookup_eq, hframe]
    dsimp only [Option.bind_eq_bind, Option.bind_some]
    split
    · next hfind => rw [hfind, Option.some_or]
    · next hfind hparent => rw [hfind, hparent, Option.none_or, Option.bind_none]
    · next parent hfind hparent =>
      -- `lookup` goes outward only to earlier frames, and here it always can.
      have hlt := h.parent id _ parent hframe hparent
      rw [hfind, hparent, Option.none_or, Option.bind_some, if_pos hlt]
      exact ih (Nat.lt_trans hlt hid) (by omega)

end Store

/-! ### What a host does -/

structure Host where
  store : Store Token
  environments : List Nat
  values : List Value

namespace Host

/-- A host with a fresh environment. -/
def initial : Host :=
  ⟨.initial, [Store.globalFrame], []⟩

/-- The host when an evaluation has ended. A failure gives it no value, and undoes nothing. -/
def ended (host : Host) : Except Failure Value × Store Token → Host
  | (.ok value, store) => { host with store, values := value :: host.values }
  | (.error _, store) => { host with store }

/-- What a host can do next. The frame of a function that it has is open to it as well. -/
inductive Step (host : Host) : Host → Prop
  | newScope {id : Nat} (hid : id ∈ host.environments) :
      Step host { host with
        store := (host.store.openFrame id).2
        environments := (host.store.openFrame id).1 :: host.environments }
  | clone {id : Nat} (hid : id ∈ host.environments) :
      Step host { host with environments := id :: host.environments }
  | declare {id : Nat} (name : String) {value : Value} (hid : id ∈ host.environments)
      (hvalue : value ∈ host.values) :
      Step host { host with store := host.store.declare id name value }
  | enter {r : Nat} {closure : Closure Token} (hr : .function r ∈ host.values)
      (hclosure : host.store.closures[r]? = some closure) :
      Step host { host with environments := closure.frame :: host.environments }
  | access {id : Nat} {name : String} {value : Value} (hid : id ∈ host.environments)
      (hlookup : host.store.lookup id name = some value) :
      Step host { host with values := value :: host.values }
  | takeApart {value part : Value} (hvalue : value ∈ host.values) (hpart : value.Part part) :
      Step host { host with values := part :: host.values }
  | evaluate {id : Nat} (limit : Nat) (program : Program Token) (hid : id ∈ host.environments)
      {ending : Except Failure Value × Store Token}
      (hrun : program.run limit id host.store = some ending) : Step host (host.ended ending)
  | evaluateExpr {id : Nat} (limit : Nat) (expr : Expr Token) (hid : id ∈ host.environments)
      {ending : Except Failure Value × Store Token}
      (hrun : expr.run limit id host.store = some ending) : Step host (host.ended ending)

/-- The value is part of one that the host has, or that a frame binds. -/
def Holds (host : Host) (part : Value) : Prop :=
  (∃ value ∈ host.values, value.Part part) ∨
    ∃ (id : Nat) (frame : Frame), host.store.frames[id]? = some frame ∧
      ∃ entry ∈ frame.bindings, entry.2.Part part

/-- Everything that a host has is in its store. This is what a step keeps. -/
structure Sound (host : Host) : Prop where
  store : host.store.Reachable .any
  environment : ∀ id ∈ host.environments, id < host.store.frames.size
  value : ∀ value ∈ host.values, host.store.Admits .any value

namespace Sound

theorem initial : initial.Sound where
  store := .initial
  environment := List.forall_mem_singleton.mpr Nat.one_pos
  value := nofun

variable {host : Host} (h : host.Sound)

include h

theorem of_leads {store : Store Token} (hleads : host.store.Leads .any store)
    {environments : List Nat} (henvironments : ∀ id ∈ environments, id < store.frames.size) :
    Sound { host with store, environments } :=
  ⟨hleads.reachable, henvironments, fun value hvalue => hleads.admits (h.value value hvalue)⟩

theorem frame_lt_of_leads {store : Store Token} (hleads : host.store.Leads .any store) :
    ∀ id ∈ host.environments, id < store.frames.size :=
  fun id hid => hleads.frame_lt (h.environment id hid)

theorem cons_value {value : Value} (hvalue : host.store.Admits .any value) :
    Sound { host with values := value :: host.values } :=
  ⟨h.store, h.environment, List.forall_mem_cons.mpr ⟨hvalue, h.value⟩⟩

theorem ended {answer : Except Failure Value} {store : Store Token}
    (hend : host.store.Leads .any store ∧ ∀ value, answer = .ok value → store.Admits .any value) :
    (host.ended (answer, store)).Sound := by
  obtain ⟨hleads, hanswer⟩ := hend
  have hstore := h.of_leads hleads (h.frame_lt_of_leads hleads)
  cases answer with
  | ok value => exact hstore.cons_value (hanswer value rfl)
  | error failure => exact hstore

theorem admits_of_holds {part : Value} (hpart : host.Holds part) : host.store.Admits .any part := by
  rcases hpart with ⟨value, hvalue, hpart⟩ | ⟨id, frame, hframe, entry, hentry, hpart⟩
  · exact (h.value value hvalue).part hpart
  · exact (h.store.sound.binding id frame hframe entry hentry).part hpart

theorem reference_lt {r : Nat} (hr : host.Holds (.function r)) : r < host.store.closures.size :=
  (h.admits_of_holds hr).reference_of_part (.refl _)

end Sound

theorem ended_store (host : Host) (ending : Except Failure Value × Store Token) :
    (host.ended ending).store = ending.2 := by
  obtain ⟨_ | _, store⟩ := ending <;> rfl

theorem Step.leads {host later : Host} (hstep : Step host later) (h : host.Sound) :
    host.store.Leads .any later.store := by
  cases hstep with
  | @newScope id hid =>
    exact .of_change (.opened id) (h.store.openFrame (h.environment id hid))
  | @declare id name value hid hvalue =>
    exact .of_change (.bound id name value)
      (h.store.declare name (h.environment id hid) (h.value value hvalue))
  | clone _ | enter _ _ | access _ _ | takeApart _ _ => exact .refl h.store
  | @evaluate id limit program hid ending hrun =>
    rw [ended_store]
    exact (program.leads_of_run (fun _ _ => trivial) h.store (h.environment id hid) hrun).1
  | @evaluateExpr id limit expr hid ending hrun =>
    rw [ended_store]
    exact (expr.leads_of_run (fun _ _ => trivial) h.store (h.environment id hid) hrun).1

theorem Step.sound {host later : Host} (hstep : Step host later) (h : host.Sound) :
    later.Sound := by
  have hleads := hstep.leads h
  cases hstep with
  | @newScope id hid =>
    refine h.of_leads hleads (List.forall_mem_cons.mpr ⟨?_, h.frame_lt_of_leads hleads⟩)
    simp only [Store.openFrame, Array.size_push]
    exact Nat.lt_succ_self _
  | clone hid =>
    exact h.of_leads hleads (List.forall_mem_cons.mpr ⟨h.environment _ hid, h.environment⟩)
  | enter hr hclosure =>
    have hframe := h.store.sound.frame _ _ hclosure
    exact h.of_leads hleads (List.forall_mem_cons.mpr ⟨hframe, h.environment⟩)
  | declare name hid hvalue => exact h.of_leads hleads (h.frame_lt_of_leads hleads)
  | access hid hlookup => exact h.cons_value (h.store.sound.admits_lookup hlookup)
  | takeApart hvalue hpart => exact h.cons_value ((h.value _ hvalue).part hpart)
  | @evaluate id limit program hid ending hrun =>
    exact h.ended (program.leads_of_run (fun _ _ => trivial) h.store (h.environment id hid) hrun)
  | @evaluateExpr id limit expr hid ending hrun =>
    exact h.ended (expr.leads_of_run (fun _ _ => trivial) h.store (h.environment id hid) hrun)

theorem Sound.steps {host later : Host} (h : host.Sound) (hsteps : ReflTransGen Step host later) :
    later.Sound ∧ host.store.Leads .any later.store := by
  induction hsteps with
  | refl => exact ⟨h, .refl h.store⟩
  | tail _ hstep ih => exact ⟨hstep.sound ih.1, ih.2.trans (hstep.leads ih.1)⟩

/-! ### What holds of every host -/

/-- The changes have made the store of the host, and tell where its functions are from. -/
structure ToldBy (host : Host) (changes : List (Change Token)) : Prop where
  origin : ∀ r, host.Holds (.function r) → ∃ place, Store.initial.Makes changes place (.function r)
  literal : ∀ place value, Store.initial.Makes changes place value →
    ∃ closure, changes[place]? = some (.made closure) ∧ ∀ limit label,
      (Expr.function label closure.parameters closure.body).eval (Run.call limit) closure.frame
          (Store.initial.replay (changes.take place))
        = some (.ok value, Store.initial.replay (changes.take (place + 1)))
  isEqual : ∀ i j v w, Store.initial.Makes changes i v → Store.initial.Makes changes j w →
    (v.isEqual w = true ↔ i = j)

structure WellFormed (host : Host) : Prop where
  environment : ∀ id ∈ host.environments, id < host.store.frames.size
  parent : ∀ (id : Nat) (frame : Frame) (parent : Nat), host.store.frames[id]? = some frame →
    frame.parent = some parent → parent < id
  access : ∀ id < host.store.frames.size, ∀ name,
    host.store.lookupWithin name host.store.frames.size id = some (host.store.lookup id name)
  closure : ∀ r, host.Holds (.function r) →
    ∃ closure, host.store.closures[r]? = some closure ∧ closure.frame < host.store.frames.size
  fresh : ∀ limit id label parameters body, ∃ r store,
    (Expr.function label parameters body).run limit id host.store
        = some (.ok (.function r), store) ∧
      ∀ other, host.Holds other → (Value.function r).isEqual other = false
  history : ∃ changes, host.store = Store.initial.replay changes
  told : ∀ changes, host.store = Store.initial.replay changes → host.ToldBy changes

/-- Frames stay inside the frames that they were opened in, and no change is undone. -/
structure Precedes (host later : Host) : Prop where
  parent : ∀ (id : Nat) (frame : Frame), host.store.frames[id]? = some frame →
    ∃ frame', later.store.frames[id]? = some frame' ∧ frame'.parent = frame.parent
  history : ∃ changes, later.store = host.store.replay changes

theorem Sound.toldBy {host : Host} (h : host.Sound) {changes : List (Change Token)}
    (hstore : host.store = Store.initial.replay changes) : host.ToldBy changes where
  origin r hr := Store.exists_makes (Nat.zero_le r) (hstore ▸ h.reference_lt hr)
  literal place value hmakes := by
    obtain ⟨closure, hchange, hvalue, hnext⟩ := hmakes.exists_closure
    refine ⟨closure, hchange, fun limit label => ?_⟩
    rw [hnext, hvalue]
    rfl
  isEqual i j v w hv hw := by
    rw [Value.isEqual_iff]
    constructor
    · rintro rfl
      exact hv.place_eq hw
    · rintro rfl
      exact hv.value_eq hw

theorem Sound.isEqual_eq_false {host : Host} (h : host.Sound) {other : Value}
    (hother : host.Holds other) :
    (Value.function host.store.closures.size).isEqual other = false := by
  refine Bool.eq_false_iff.mpr fun heq => ?_
  cases (Value.isEqual_iff _ _).mp heq
  exact Nat.lt_irrefl _ (h.reference_lt hother)

theorem Sound.wellFormed {host : Host} (h : host.Sound) (hhistory : ∃ changes,
    host.store = Store.initial.replay changes) : host.WellFormed where
  environment := h.environment
  parent := h.store.sound.parent
  access id hid name := h.store.sound.lookupWithin_eq name hid hid
  closure r hr := by
    have hclosure := Array.getElem?_eq_getElem (h.reference_lt hr)
    exact ⟨_, hclosure, h.store.sound.frame r _ hclosure⟩
  fresh limit id label parameters body := ⟨_, _, rfl, fun _ => h.isEqual_eq_false⟩
  history := hhistory
  told changes := h.toldBy

theorem Precedes.of_replay {host later : Host} (h : ∃ changes,
    later.store = host.store.replay changes) : host.Precedes later where
  parent id frame hframe := by
    obtain ⟨changes, hstore⟩ := h
    obtain ⟨frame', hframe', hparent, -⟩ :=
      (Store.footprint_replay host.store changes).frames id frame hframe
    exact ⟨frame', hstore ▸ hframe', hparent⟩
  history := h

/-- Whatever a host does, frames lie inside earlier frames for good, every function refers to a
frame that is there, and equal functions are from one evaluation of one literal. -/
theorem wellFormed_of_steps {host : Host} (h : ReflTransGen Step initial host) :
    host.WellFormed ∧ ∀ later, ReflTransGen Step host later → host.Precedes later := by
  obtain ⟨hsound, hleads⟩ := Sound.initial.steps h
  exact ⟨hsound.wellFormed hleads.history,
    fun later hlater => .of_replay (hsound.steps hlater).2.history⟩

/-- A frame that binds a function which was made in it, bound once more in a frame of the host. -/
theorem wellFormed_of_steps_cycle :
    let source := "let f = fn(n) \x7b let g = fn() \x7b n \x7d; g \x7d; f(1)"
    ∃ (store : Store Token) (host : Host),
      (Program.ofSource source).run 1 Store.globalFrame .initial
          = some (.ok (.function 1), store) ∧
        store.closures[1]?.map (·.frame) = some 1 ∧ store.lookup 1 "g" = some (.function 1) ∧
        host = ⟨(store.openFrame 0).2.declare store.frames.size "h" (.function 1),
          [store.frames.size, 0], [.function 1]⟩ ∧
        ReflTransGen Step initial host ∧
        host.WellFormed ∧ ∀ later, ReflTransGen Step host later → host.Precedes later := by
  intro source
  have hending : ((Program.ofSource source).run 1 Store.globalFrame .initial).map (fun ending =>
      (ending.1.toOption, ending.2.closures[1]?.map (·.frame), ending.2.lookup 1 "g"))
        = some (some (.function 1), some 1, some (.function 1)) := by decide +kernel
  obtain ⟨⟨answer, store⟩, hrun, heq⟩ := Option.map_eq_some_iff.mp hending
  obtain ⟨hanswer, hcycle⟩ := Prod.mk.inj heq
  obtain ⟨hframe, hbound⟩ := Prod.mk.inj hcycle
  obtain rfl : answer = .ok (.function 1) := by
    cases answer with
    | ok value => exact congrArg Except.ok (Option.some.inj hanswer)
    | error failure => cases hanswer
  have hglobal : Store.globalFrame ∈ initial.environments := List.mem_cons_self
  have hran : ReflTransGen Step initial ⟨store, [0], [.function 1]⟩ :=
    .single (.evaluate 1 (Program.ofSource source) hglobal hrun)
  have hscoped := hran.tail (.newScope List.mem_cons_self)
  have hsteps := hscoped.tail (.declare "h" List.mem_cons_self List.mem_cons_self)
  exact ⟨store, _, hrun, hframe, hbound, rfl, hsteps, wellFormed_of_steps hsteps⟩

end Host

end Scriptlet
