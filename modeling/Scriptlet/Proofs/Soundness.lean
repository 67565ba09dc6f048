import Scriptlet.Proofs.Faults
import Scriptlet.Proofs.History
import Scriptlet.Proofs.Reached
import Scriptlet.Proofs.Session

/-! # Stores that evaluation reaches

Evaluation changes a store in five ways only, and what each of them keeps holds of every store that
it reaches: frames lie inside earlier frames, and no value, binding or closure refers to anything
that is not there. A fault is raised by an expression of the code that was evaluated, be it in the
body of a function that was made long before.
-/

namespace Scriptlet

variable {α β γ : Type}

/-- What code may consist of, and which strings may come of such code. -/
structure Material (α : Type) where
  code : Grammar.Node α → Prop
  text : String → Prop
  text_of_code : ∀ label s, code (.expr (.string label s)) → text s
  text_append : ∀ s t, text s → text t → text (s ++ t)

/-- All code and all strings. -/
def Material.any : Material α :=
  ⟨fun _ => True, fun _ => True, fun _ _ _ => trivial, fun _ _ _ _ => trivial⟩

/-- An expression of the code raises the fault at this site. -/
def Material.Raises (m : Material α) (fault : Fault) (site : α) : Prop :=
  ∃ expr, m.code (.expr expr) ∧ expr.label = site ∧ fault.Fits expr

namespace Store

variable (m : Material α)

/-- The functions in the value are in the store, and its strings are of the material. -/
def Admits (s : Store α) (value : Value) : Prop :=
  value.MadeOf m.text (· < s.closures.size)

def AdmitsEnd (s : Store α) : Interrupt α → Prop
  | .returned value => s.Admits m value
  | .failed fault site => m.Raises fault site

/-- What evaluation makes of the store with one frame, step by step. -/
inductive Reachable : Store α → Prop
  | initial : Reachable initial
  | openFrame {s : Store α} {parent : Nat} (h : Reachable s) (hparent : parent < s.frames.size) :
      Reachable (s.openFrame parent).2
  | close {s : Store α} {closure : Closure α} (h : Reachable s)
      (hframe : closure.frame < s.frames.size) (hcode : ∀ node ∈ closure.body.nodes, m.code node) :
      Reachable (s.close closure).2
  | declare {s : Store α} {id : Nat} {value : Value} (name : String) (h : Reachable s)
      (hid : id < s.frames.size) (hvalue : s.Admits m value) : Reachable (s.declare id name value)
  | write {s : Store α} (text : String) (h : Reachable s) : Reachable (s.write text)

/-- Nothing refers to what is not there. -/
structure Sound (s : Store α) : Prop where
  parent : ∀ (id : Nat) (frame : Frame) (parent : Nat), s.frames[id]? = some frame →
    frame.parent = some parent → parent < id
  binding : ∀ (id : Nat) (frame : Frame), s.frames[id]? = some frame →
    ∀ entry ∈ frame.bindings, s.Admits m entry.2
  frame : ∀ (r : Nat) (closure : Closure α), s.closures[r]? = some closure →
    closure.frame < s.frames.size
  code : ∀ (r : Nat) (closure : Closure α), s.closures[r]? = some closure →
    ∀ node ∈ closure.body.nodes, m.code node

variable {m} {s t u : Store α}

theorem Admits.mono {value : Value} (h : s.Admits m value)
    (hle : s.closures.size ≤ t.closures.size) : t.Admits m value :=
  Value.MadeOf.mono h fun _ hr => Nat.lt_of_lt_of_le hr hle

namespace Sound

theorem initial : (initial : Store α).Sound m where
  parent := by
    intro id frame parent hframe hparent
    obtain ⟨hid, rfl⟩ := Array.getElem?_eq_some_iff.mp hframe
    obtain rfl : id = 0 := Nat.lt_one_iff.mp hid
    cases hparent
  binding := by
    intro id frame hframe entry hentry
    obtain ⟨hid, rfl⟩ := Array.getElem?_eq_some_iff.mp hframe
    obtain rfl : id = 0 := Nat.lt_one_iff.mp hid
    cases hentry
  frame := fun _ _ => nofun
  code := fun _ _ => nofun

variable (h : s.Sound m)

include h

theorem openFrame {parent : Nat} (hparent : parent < s.frames.size) :
    (s.openFrame parent).2.Sound m := by
  have hnew : ∀ (id : Nat) (frame : Frame), (s.openFrame parent).2.frames[id]? = some frame →
      s.frames[id]? = some frame ∨ id = s.frames.size ∧ frame = ⟨[], some parent⟩ := by
    intro id frame hframe
    simp only [Store.openFrame, Array.getElem?_push] at hframe
    split at hframe
    · next heq => exact Or.inr ⟨heq, (Option.some.inj hframe).symm⟩
    · exact Or.inl hframe
  refine ⟨?_, ?_, ?_, h.code⟩
  · intro id frame parent' hframe hparent'
    rcases hnew id frame hframe with hold | ⟨rfl, rfl⟩
    · exact h.parent id frame parent' hold hparent'
    · cases hparent'
      exact hparent
  · intro id frame hframe entry hentry
    rcases hnew id frame hframe with hold | ⟨-, rfl⟩
    · exact h.binding id frame hold entry hentry
    · cases hentry
  · intro r closure hclosure
    have hframe := h.frame r closure hclosure
    simp only [Store.openFrame, Array.size_push]
    exact Nat.lt_succ_of_lt hframe

theorem close {closure : Closure α} (hframe : closure.frame < s.frames.size)
    (hcode : ∀ node ∈ closure.body.nodes, m.code node) : (s.close closure).2.Sound m := by
  have hnew : ∀ (r : Nat) (closure' : Closure α),
      (s.close closure).2.closures[r]? = some closure' →
      s.closures[r]? = some closure' ∨ closure' = closure := by
    intro r closure' hclosure
    simp only [Store.close, Array.getElem?_push] at hclosure
    split at hclosure
    · exact Or.inr (Option.some.inj hclosure).symm
    · exact Or.inl hclosure
  refine ⟨h.parent, ?_, ?_, ?_⟩
  · intro id frame hframe' entry hentry
    refine (h.binding id frame hframe' entry hentry).mono ?_
    simp only [Store.close, Array.size_push]
    exact Nat.le_succ _
  · intro r closure' hclosure
    rcases hnew r closure' hclosure with hold | rfl
    · exact h.frame r closure' hold
    · exact hframe
  · intro r closure' hclosure
    rcases hnew r closure' hclosure with hold | rfl
    · exact h.code r closure' hold
    · exact hcode

theorem declare {id : Nat} {name : String} {value : Value} (hvalue : s.Admits m value) :
    (s.declare id name value).Sound m := by
  have hold : ∀ (other : Nat) (frame : Frame),
      (s.declare id name value).frames[other]? = some frame →
      ∃ frame', s.frames[other]? = some frame' ∧ frame.parent = frame'.parent ∧
        ∀ entry ∈ frame.bindings, entry = (name, value) ∨ entry ∈ frame'.bindings := by
    intro other frame hframe
    simp only [Store.declare, Array.getElem?_modify] at hframe
    split at hframe
    · obtain ⟨frame', hframe', rfl⟩ := Option.map_eq_some_iff.mp hframe
      exact ⟨frame', hframe', rfl, fun entry => Entries.mem_insert⟩
    · exact ⟨frame, hframe, rfl, fun entry => Or.inr⟩
  refine ⟨?_, ?_, ?_, h.code⟩
  · intro other frame parent hframe hparent
    obtain ⟨frame', hframe', heq, -⟩ := hold other frame hframe
    exact h.parent other frame' parent hframe' (heq ▸ hparent)
  · intro other frame hframe entry hentry
    obtain ⟨frame', hframe', -, hentries⟩ := hold other frame hframe
    rcases hentries entry hentry with rfl | hentry
    · exact hvalue
    · exact h.binding other frame' hframe' entry hentry
  · intro r closure hclosure
    simp only [Store.declare, Array.size_modify]
    exact h.frame r closure hclosure

theorem write (text : String) : (s.write text).Sound m :=
  ⟨h.parent, h.binding, h.frame, h.code⟩

end Sound

namespace Reachable

theorem sound (h : s.Reachable m) : s.Sound m := by
  induction h with
  | initial => exact Sound.initial
  | openFrame _ hparent ih => exact ih.openFrame hparent
  | close _ hframe hcode ih => exact ih.close hframe hcode
  | declare name _ _ hvalue ih => exact ih.declare hvalue
  | write text _ ih => exact ih.write text

theorem globalFrame_lt (h : s.Reachable m) : globalFrame < s.frames.size := by
  induction h with
  | initial => exact Nat.one_pos
  | openFrame _ _ ih =>
    simp only [Store.openFrame, Array.size_push]
    exact Nat.lt_succ_of_lt ih
  | declare name _ _ _ ih =>
    simp only [Store.declare, Array.size_modify]
    exact ih
  | close _ _ _ ih | write _ _ ih => exact ih

end Reachable

theorem exists_of_mem_chain {frame : Frame} {id : Nat} (h : frame ∈ s.chain id) :
    ∃ id' : Nat, s.frames[id']? = some frame := by
  induction id using Nat.strongRecOn with
  | ind id ih =>
    rw [chain] at h
    cases hframe : s.frames[id]? with
    | none =>
      rw [hframe] at h
      cases h
    | some first =>
      rw [hframe] at h
      rcases List.mem_cons.mp h with rfl | h
      · exact ⟨id, hframe⟩
      · split at h
        · cases h
        · next parent _ =>
          split at h
          · next hlt => exact ih parent hlt h
          · cases h

theorem Sound.admits_lookup (h : s.Sound m) {id : Nat} {name : String} {value : Value}
    (hlookup : s.lookup id name = some value) : s.Admits m value := by
  obtain ⟨frame, hframe, hfind⟩ := List.exists_of_findSome?_eq_some hlookup
  obtain ⟨id', hframe⟩ := exists_of_mem_chain hframe
  exact h.binding id' frame hframe (name, value) (Entries.mem_of_find? hfind)

/-- The second store is reachable, and made of the first one by changes. -/
structure Leads (m : Material α) (s t : Store α) : Prop where
  reachable : t.Reachable m
  history : ∃ changes, t = s.replay changes

namespace Leads

theorem refl (h : s.Reachable m) : s.Leads m s :=
  ⟨h, [], rfl⟩

theorem of_change (change : Change α) (h : (change.apply s).Reachable m) :
    s.Leads m (change.apply s) :=
  ⟨h, [change], rfl⟩

theorem trans (hst : s.Leads m t) (htu : t.Leads m u) : s.Leads m u := by
  obtain ⟨changes, rfl⟩ := hst.history
  obtain ⟨more, rfl⟩ := htu.history
  exact ⟨htu.reachable, changes ++ more, (s.replay_append changes more).symm⟩

variable (h : s.Leads m t)

include h

theorem frames : s.frames.size ≤ t.frames.size := by
  obtain ⟨changes, rfl⟩ := h.history
  exact (s.size_replay_le changes).1

theorem closures : s.closures.size ≤ t.closures.size := by
  obtain ⟨changes, rfl⟩ := h.history
  exact (s.size_replay_le changes).2

theorem frame_lt {frame : Nat} (hframe : frame < s.frames.size) : frame < t.frames.size :=
  Nat.lt_of_lt_of_le hframe h.frames

theorem admits {value : Value} (hvalue : s.Admits m value) : t.Admits m value :=
  hvalue.mono h.closures

end Leads

end Store

/-! ### Runs -/

namespace Run

variable {m : Material α} {s : Store α}

/-- If the run ends, then in a reachable store, which admits what comes of it. -/
def Stays (m : Material α) (s : Store α) (run : Run α β) (Q : β → Store α → Prop) : Prop :=
  run.EndsIn s (fun value t => s.Leads m t ∧ Q value t)
    fun interrupt t => s.Leads m t ∧ t.AdmitsEnd m interrupt

namespace Stays

variable {Q : β → Store α → Prop}

theorem leads {run : Run α β} (h : run.Stays m s Q) {result : Except (Interrupt α) β} {t : Store α}
    (hrun : run s = some (result, t)) : s.Leads m t := by
  have hend := h result t hrun
  cases result with
  | ok value => exact hend.1
  | error interrupt => exact hend.1

theorem bind {x : Run α γ} {f : γ → Run α β} {P : γ → Store α → Prop} (hx : x.Stays m s P)
    (hf : ∀ value t, s.Leads m t → P value t → (f value).Stays m t Q) :
    (x >>= f).Stays m s Q := by
  refine EndsIn.bind hx ?_ fun _ _ h => h
  intro value t ⟨ht, hvalue⟩
  exact (hf value t ht hvalue).imp (fun _ _ h => ⟨ht.trans h.1, h.2⟩)
    fun _ _ h => ⟨ht.trans h.1, h.2⟩

theorem endless : (Run.endless : Run α β).Stays m s Q :=
  fun _ _ => nofun

theorem get {f : Store α → Run α β} (h : (f s).Stays m s Q) :
    (MonadState.get >>= f : Run α β).Stays m s Q :=
  h

theorem of_step {run : Run α β} {value : β} {next : Store α}
    (hrun : run s = some (.ok value, next)) (hnext : s.Leads m next) (h : Q value next) :
    run.Stays m s Q := by
  intro result t hend
  cases hrun.symm.trans hend
  exact ⟨hnext, h⟩

theorem untilReturn {run : Run α Value} (h : run.Stays m s fun value t => t.Admits m value) :
    (Run.untilReturn run).Stays m s fun value t => t.Admits m value := by
  intro result t hrun
  rw [untilReturn_apply, Option.map_eq_some_iff] at hrun
  obtain ⟨⟨inner, t'⟩, hinner, heq⟩ := hrun
  cases heq
  have hend := h inner _ hinner
  rcases inner with (_ | _) | _ <;> exact hend

section Reachable

variable (hs : s.Reachable m)

include hs

theorem pure {value : β} (h : Q value s) : (Pure.pure value : Run α β).Stays m s Q :=
  EndsIn.pure ⟨Store.Leads.refl hs, h⟩

theorem throw {interrupt : Interrupt α} (h : s.AdmitsEnd m interrupt) :
    (MonadExcept.throw interrupt : Run α β).Stays m s Q :=
  EndsIn.throw ⟨Store.Leads.refl hs, h⟩

theorem ofExcept {site : α} {outcome : Except Fault β}
    (h : ∀ value, outcome = .ok value → Q value s)
    (hraises : ∀ fault, outcome = .error fault → m.Raises fault site) :
    (Run.ofExcept site outcome).Stays m s Q :=
  EndsIn.ofExcept (fun value hok => ⟨Store.Leads.refl hs, h value hok⟩)
    fun fault herror => ⟨Store.Leads.refl hs, hraises fault herror⟩

theorem name {site : α} {name : String} (hcode : m.code (.expr (.name site name))) (frame : Nat) :
    (Run.name site frame name).Stays m s fun value t => t.Admits m value := by
  refine get ?_
  cases hlookup : s.lookup frame name with
  | some value => exact pure hs (hs.sound.admits_lookup hlookup)
  | none =>
    dsimp only
    split
    · exact pure hs (.builtin _)
    · exact throw hs ⟨_, hcode, rfl, site, rfl⟩

theorem openFrame {parent : Nat} (hparent : parent < s.frames.size) :
    (Run.openFrame parent).Stays m s fun frame t => frame < t.frames.size := by
  have hsize : (s.openFrame parent).2.frames.size = s.frames.size + 1 := Array.size_push _
  refine of_step rfl (.of_change (.opened parent) (hs.openFrame hparent)) ?_
  exact hsize ▸ Nat.lt_succ_self _

theorem close (closure : Closure α) (hframe : closure.frame < s.frames.size)
    (hcode : ∀ node ∈ closure.body.nodes, m.code node) :
    (Run.close closure).Stays m s fun value t => t.Admits m value := by
  have hsize : (s.close closure).2.closures.size = s.closures.size + 1 := Array.size_push _
  refine of_step rfl (.of_change (.made closure) (hs.close hframe hcode)) (.function ?_)
  exact hsize ▸ Nat.lt_succ_self _

theorem declare {frame : Nat} (name : String) {value : Value} (hframe : frame < s.frames.size)
    (hvalue : s.Admits m value) :
    (Run.declare frame name value).Stays m s fun _ _ => True :=
  of_step rfl (.of_change (.bound frame name value) (hs.declare name hframe hvalue)) trivial

theorem builtin {site : α} {callee : Grammar.Expr α} {exprs : List (Grammar.Expr α)}
    (hcode : m.code (.expr (.call site callee exprs))) {function : Value.Builtin}
    {arguments : List Value} (harguments : ∀ argument ∈ arguments, s.Admits m argument) :
    (Run.builtin site function arguments).Stays m s fun value t => t.Admits m value := by
  have hraises : ∀ fault, function.call arguments = .error fault → m.Raises fault site :=
    fun fault herror => ⟨_, hcode, rfl, Value.fits_call site callee exprs herror⟩
  unfold Run.builtin
  split
  · refine Stays.bind (P := fun _ t => ∀ argument ∈ arguments, t.Admits m argument) ?_ ?_
    · exact of_step rfl (.of_change (.wrote _) (hs.write _)) harguments
    · exact fun _ t ht h => ofExcept ht.reachable (fun value hok => Value.MadeOf.call h hok) hraises
  · exact ofExcept hs (fun value hok => Value.MadeOf.call harguments hok) hraises

end Reachable

theorem declareAll {frame : Nat} : ∀ {bindings : List (Grammar.Ident α × Value)} {s : Store α},
    s.Reachable m → frame < s.frames.size → (∀ binding ∈ bindings, s.Admits m binding.2) →
    (Run.declareAll frame bindings).Stays m s fun _ _ => True
  | [], _, hs, _, _ => pure hs trivial
  | (parameter, _) :: rest, s, hs, hframe, h => by
    obtain ⟨hargument, hrest⟩ := List.forall_mem_cons.mp h
    refine (declare hs parameter.name hframe hargument).bind fun _ t ht _ => ?_
    exact declareAll ht.reachable (ht.frame_lt hframe) fun binding hbinding =>
      ht.admits (hrest binding hbinding)

end Stays

end Run

namespace Grammar

variable {m : Material α}

/-- Calls that stand in the code lead from reachable stores to reachable ones. -/
def CallsStay (m : Material α) (call : α → Value → List Value → Run α Value) : Prop :=
  ∀ site callee exprs function arguments s, m.code (.expr (.call site callee exprs)) →
    s.Reachable m → s.Admits m function → (∀ argument ∈ arguments, s.Admits m argument) →
    (call site function arguments).Stays m s fun value t => t.Admits m value

section Evaluation

variable {call : α → Value → List Value → Run α Value} {frame : Nat}

open List (forall_mem_append forall_mem_cons)

mutual

theorem Expr.stays (hcall : CallsStay m call) :
    ∀ (expr : Expr α) {s : Store α}, (∀ node ∈ expr.nodes, m.code node) →
    s.Reachable m → frame < s.frames.size →
    (expr.eval call frame).Stays m s fun value t => t.Admits m value
  | .int _ _, _, _, hs, _ => Run.Stays.pure hs (.int _)
  | .bool _ _, _, _, hs, _ => Run.Stays.pure hs (.bool _)
  | .name _ _, _, hcode, hs, _ => Run.Stays.name hs (hcode _ List.mem_cons_self) frame
  | .string label text, _, hcode, hs, _ =>
    Run.Stays.pure hs (.string (m.text_of_code label text (hcode _ List.mem_cons_self)))
  | .array _ elements, s, hcode, hs, hframe => by
    have helements := (forall_mem_cons.mp hcode).2
    refine (stays_evalAll hcall elements helements hs hframe).bind fun _ t ht h => ?_
    exact Run.Stays.pure ht.reachable (.array h)
  | .map _ entries, s, hcode, hs, hframe => by
    have hentries := (forall_mem_cons.mp hcode).2
    refine (stays_evalEntries hcall entries [] hentries hs hframe nofun nofun).bind
      fun _ t ht h => ?_
    exact Run.Stays.pure ht.reachable h
  | .unary label op operand, s, hcode, hs, hframe => by
    obtain ⟨hself, hoperand⟩ := forall_mem_cons.mp hcode
    refine (operand.stays hcall hoperand hs hframe).bind fun _ t ht _ => ?_
    exact Run.Stays.ofExcept ht.reachable (fun value => Value.MadeOf.unary)
      fun _ herror => ⟨_, hself, rfl, Value.fits_unary label operand herror⟩
  | .binary label op lhs rhs, s, hcode, hs, hframe => by
    obtain ⟨hself, hparts⟩ := forall_mem_cons.mp hcode
    obtain ⟨hlhs, hrhs⟩ := forall_mem_append.mp hparts
    -- The left operand is still admitted when the right one has been evaluated: stores only grow.
    refine (lhs.stays hcall hlhs hs hframe).bind fun a t ht ha => ?_
    refine (rhs.stays hcall hrhs ht.reachable (ht.frame_lt hframe)).bind fun b u hu hb => ?_
    exact Run.Stays.ofExcept hu.reachable
      (fun value => Value.MadeOf.binary m.text_append (hu.admits ha) hb)
      fun _ herror => ⟨_, hself, rfl, Value.fits_binary label lhs rhs herror⟩
  | .branch _ condition consequence alternative, s, hcode, hs, hframe => by
    obtain ⟨h, halternative⟩ := forall_mem_append.mp (forall_mem_cons.mp hcode).2
    obtain ⟨hcondition, hconsequence⟩ := forall_mem_append.mp h
    refine (condition.stays hcall hcondition hs hframe).bind fun value t ht _ => ?_
    split
    · exact consequence.stays hcall hconsequence ht.reachable (ht.frame_lt hframe)
    · exact stays_evalAlternative hcall alternative halternative ht.reachable (ht.frame_lt hframe)
  | .function _ parameters body, s, hcode, hs, hframe =>
    Run.Stays.close hs ⟨parameters, body, frame⟩ hframe
      (forall_mem_append.mp (forall_mem_cons.mp hcode).2).2
  | .call label callee arguments, s, hcode, hs, hframe => by
    obtain ⟨hself, hparts⟩ := forall_mem_cons.mp hcode
    obtain ⟨hcallee, harguments⟩ := forall_mem_append.mp hparts
    refine (callee.stays hcall hcallee hs hframe).bind fun function t ht hfunction => ?_
    refine (stays_evalAll hcall arguments harguments ht.reachable (ht.frame_lt hframe)).bind
      fun values u hu hvalues => ?_
    exact hcall label callee arguments function values u hself hu.reachable (hu.admits hfunction)
      hvalues
  | .index label collection position, s, hcode, hs, hframe => by
    obtain ⟨hself, hparts⟩ := forall_mem_cons.mp hcode
    obtain ⟨hcollection, hposition⟩ := forall_mem_append.mp hparts
    refine (collection.stays hcall hcollection hs hframe).bind fun a t ht ha => ?_
    refine (position.stays hcall hposition ht.reachable (ht.frame_lt hframe)).bind
      fun b u hu _ => ?_
    exact Run.Stays.ofExcept hu.reachable (fun value => Value.MadeOf.index (hu.admits ha))
      fun _ herror => ⟨_, hself, rfl, Value.fits_index label collection position herror⟩

theorem stays_evalAll (hcall : CallsStay m call) : ∀ (values : List (Expr α)) {s : Store α},
    (∀ node ∈ nodesOfAll values, m.code node) → s.Reachable m → frame < s.frames.size →
    (evalAll call frame values).Stays m s fun results t => ∀ value ∈ results, t.Admits m value
  | [], _, _, hs, _ => Run.Stays.pure hs nofun
  | expr :: rest, s, hcode, hs, hframe => by
    obtain ⟨hexpr, hrest⟩ := forall_mem_append.mp hcode
    refine (expr.stays hcall hexpr hs hframe).bind fun value t ht hvalue => ?_
    refine (stays_evalAll hcall rest hrest ht.reachable (ht.frame_lt hframe)).bind
      fun values u hu h => ?_
    exact Run.Stays.pure hu.reachable (forall_mem_cons.mpr ⟨hu.admits hvalue, h⟩)

theorem stays_evalEntries (hcall : CallsStay m call) : ∀ (entries : List (Expr α × Expr α))
    (known : List (Value.Key × Value)) {s : Store α},
    (∀ node ∈ nodesOfEntries entries, m.code node) → s.Reachable m → frame < s.frames.size →
    (∀ entry ∈ known, entry.1.MadeOf m.text) → (∀ entry ∈ known, s.Admits m entry.2) →
    (evalEntries call frame known entries).Stays m s fun results t => t.Admits m (.map results)
  | [], _, _, _, hs, _, hkeys, hvalues => Run.Stays.pure hs (.map hkeys hvalues)
  | (key, value) :: rest, known, s, hcode, hs, hframe, hkeys, hvalues => by
    obtain ⟨h, hrest⟩ := forall_mem_append.mp hcode
    obtain ⟨hkey, hvalue⟩ := forall_mem_append.mp h
    refine (key.stays hcall hkey hs hframe).bind fun position t ht hposition => ?_
    refine (Run.Stays.ofExcept (Q := fun position _ => position.MadeOf m.text) ht.reachable
      (fun _ => hposition.toKey) fun _ herror =>
        ⟨key, hkey _ key.mem_nodes, rfl, Value.fits_toKey key herror⟩).bind
      fun position u hu hposition => ?_
    have hframe := hu.frame_lt (ht.frame_lt hframe)
    refine (value.stays hcall hvalue hu.reachable hframe).bind fun result w hw hresult => ?_
    refine stays_evalEntries hcall rest _ hrest hw.reachable (hw.frame_lt hframe) ?_ ?_
    · intro entry hentry
      rcases Entries.mem_insert hentry with rfl | hentry
      · exact hposition
      · exact hkeys entry hentry
    · intro entry hentry
      rcases Entries.mem_insert hentry with rfl | hentry
      · exact hresult
      · exact ((ht.trans hu).trans hw).admits (hvalues entry hentry)

theorem stays_evalAlternative (hcall : CallsStay m call) :
    ∀ (alternative : Option (Block α)) {s : Store α},
    (∀ node ∈ nodesOfAlternative alternative, m.code node) → s.Reachable m →
    frame < s.frames.size →
    (evalAlternative call frame alternative).Stays m s fun value t => t.Admits m value
  | none, _, _, hs, _ => Run.Stays.pure hs .null
  | some block, _, hcode, hs, hframe => block.stays hcall hcode hs hframe

theorem Block.stays (hcall : CallsStay m call) :
    ∀ (block : Block α) {s : Store α}, (∀ node ∈ block.nodes, m.code node) →
    s.Reachable m → frame < s.frames.size →
    (block.eval call frame).Stays m s fun value t => t.Admits m value
  | .mk _ body, _, hcode, hs, hframe => stays_evalStatements hcall body hcode hs hframe .null

theorem Stmt.stays (hcall : CallsStay m call) :
    ∀ (stmt : Stmt α) {s : Store α}, (∀ node ∈ stmt.nodes, m.code node) →
    s.Reachable m → frame < s.frames.size →
    (stmt.eval call frame).Stays m s fun value t => t.Admits m value
  | .bind _ target value, s, hcode, hs, hframe => by
    have hvalue := (forall_mem_cons.mp (forall_mem_cons.mp hcode).2).2
    refine (value.stays hcall hvalue hs hframe).bind fun result t ht hresult => ?_
    refine (Run.Stays.declare ht.reachable target.name (ht.frame_lt hframe) hresult).bind
      fun _ u hu _ => ?_
    exact Run.Stays.pure hu.reachable (hu.admits hresult)
  | .leave _ none, _, _, hs, _ => Run.Stays.throw hs .null
  | .leave _ (some value), s, hcode, hs, hframe => by
    have hvalue := (forall_mem_cons.mp hcode).2
    refine (value.stays hcall hvalue hs hframe).bind fun result t ht hresult => ?_
    exact Run.Stays.throw ht.reachable hresult
  | .expr _ value, _, hcode, hs, hframe => value.stays hcall (forall_mem_cons.mp hcode).2 hs hframe
  | .block inner, _, hcode, hs, hframe => inner.stays hcall (forall_mem_cons.mp hcode).2 hs hframe

theorem stays_evalStatements (hcall : CallsStay m call) : ∀ (stmts : List (Stmt α)) {s : Store α},
    (∀ node ∈ nodesOfStatements stmts, m.code node) → s.Reachable m → frame < s.frames.size →
    ∀ {last : Value}, s.Admits m last →
    (evalStatements call frame last stmts).Stays m s fun value t => t.Admits m value
  | [], _, _, hs, _, _, hlast => Run.Stays.pure hs hlast
  | stmt :: rest, s, hcode, hs, hframe, last, _ => by
    obtain ⟨hstmt, hrest⟩ := forall_mem_append.mp hcode
    refine (stmt.stays hcall hstmt hs hframe).bind fun value t ht hvalue => ?_
    exact stays_evalStatements hcall rest hrest ht.reachable (ht.frame_lt hframe) hvalue

end

end Evaluation

/-- A call in the code leads from a reachable store to reachable ones only, and so does a call of a
function in the store that was made of the code. -/
theorem stays_call_of_code : ∀ (limit : Nat) (site : α) (callee : Expr α) (exprs : List (Expr α))
    (function : Value) (arguments : List Value) (s : Store α),
    m.code (.expr (.call site callee exprs)) → s.Reachable m → s.Admits m function →
    (∀ argument ∈ arguments, s.Admits m argument) →
    (Run.call limit site function arguments).Stays m s fun value t => t.Admits m value
  | _, site, callee, exprs, .builtin function, arguments, s, hcode, hs, _, harguments => by
    rw [Run.call]
    exact Run.Stays.builtin hs hcode harguments
  | limit, site, callee, exprs, .function reference, arguments, s, hcode, hs, _, harguments => by
    unfold Run.call
    refine Run.Stays.get ?_
    cases hclosure : s.closures[reference]? with
    | none => exact Run.Stays.endless
    | some closure =>
      dsimp only
      split
      · next hlength =>
        exact Run.Stays.throw hs ⟨_, hcode, rfl, hlength, site, callee, exprs, rfl⟩
      · cases limit with
        | zero => exact Run.Stays.endless
        | succ limit =>
          have hparent := hs.sound.frame reference closure hclosure
          refine (Run.Stays.openFrame hs hparent).bind fun frame t ht hframe => ?_
          refine (Run.Stays.declareAll ht.reachable hframe ?_).bind fun _ u hu _ => ?_
          · intro binding hbinding
            exact ht.admits (harguments binding.2 (List.of_mem_zip hbinding).2)
          · -- The code of the body was of the material when the closure was made.
            have hbody := hs.sound.code reference closure hclosure
            exact (closure.body.stays (stays_call_of_code limit) hbody hu.reachable
              (hu.frame_lt hframe)).untilReturn
  | _, site, callee, exprs, .int _, _, _, hcode, hs, _, _
  | _, site, callee, exprs, .bool _, _, _, hcode, hs, _, _
  | _, site, callee, exprs, .string _, _, _, hcode, hs, _, _
  | _, site, callee, exprs, .array _, _, _, hcode, hs, _, _
  | _, site, callee, exprs, .map _, _, _, hcode, hs, _, _
  | _, site, callee, exprs, .null, _, _, hcode, hs, _, _ => by
    rw [Run.call]
    · exact Run.Stays.throw hs
        ⟨_, hcode, rfl, by simp [Value.kind], fun _ heq => by simp [Value.kind] at heq⟩
    all_goals
      intro _ h
      cases h

theorem stays_call (limit : Nat) (site : α) (function : Value) (arguments : List Value)
    (s : Store α) (hs : s.Reachable .any) (hfunction : s.Admits .any function)
    (harguments : ∀ argument ∈ arguments, s.Admits .any argument) :
    (Run.call limit site function arguments).Stays .any s fun value t => t.Admits .any value :=
  stays_call_of_code limit site (.bool site true) [] function arguments s trivial hs hfunction
    harguments

/-! ### Programs and sessions -/

section Programs

variable {m : Material Token}

theorem leads_of_finish {run : Run Token Value} {s t : Store Token}
    (h : run.Stays m s fun value t => t.Admits m value) {answer : Except Failure Value}
    (hrun : run.finish s = some (answer, t)) :
    s.Leads m t ∧ ∀ value, answer = .ok value → t.Admits m value := by
  rw [Run.finish_apply, Option.map_eq_some_iff] at hrun
  obtain ⟨⟨result, t'⟩, heval, heq⟩ := hrun
  cases heq
  refine ⟨h.leads heval, fun value hvalue => ?_⟩
  have hend := h result _ heval
  rcases result with (_ | _) | _ <;> cases hvalue <;> exact hend.2

theorem raises_of_finish {run : Run Token Value} {s t : Store Token}
    {Q : Value → Store Token → Prop} (h : run.Stays m s Q) {failure : Failure}
    (hrun : run.finish s = some (.error failure, t)) :
    ∃ site, failure.span = site.span ∧ m.Raises failure.fault site := by
  rw [Run.finish_apply, Option.map_eq_some_iff] at hrun
  obtain ⟨⟨result, t'⟩, heval, heq⟩ := hrun
  have hend := h result t' heval
  rcases result with (_ | ⟨fault, site⟩) | _
  · cases heq
  · cases heq
    exact ⟨site, rfl, hend.2⟩
  · cases heq

theorem Expr.leads_of_run {expr : Expr Token} (hcode : ∀ node ∈ expr.nodes, m.code node)
    {limit frame : Nat} {s t : Store Token} (hs : s.Reachable m) (hframe : frame < s.frames.size)
    {answer : Except Failure Value} (hrun : expr.run limit frame s = some (answer, t)) :
    s.Leads m t ∧ ∀ value, answer = .ok value → t.Admits m value :=
  leads_of_finish (expr.stays (stays_call_of_code limit) hcode hs hframe) hrun

theorem Program.leads_of_run {program : Program Token}
    (hcode : ∀ node ∈ nodesOfStatements program.statements, m.code node) {limit frame : Nat}
    {s t : Store Token} (hs : s.Reachable m) (hframe : frame < s.frames.size)
    {answer : Except Failure Value} (hrun : program.run limit frame s = some (answer, t)) :
    s.Leads m t ∧ ∀ value, answer = .ok value → t.Admits m value := by
  cases herrors : program.errors with
  | cons first rest =>
    rw [Program.run, herrors] at hrun
    cases hrun
    refine ⟨.refl hs, fun value heq => ?_⟩
    cases heq
  | nil =>
    rw [Program.run, herrors] at hrun
    have hstays := stays_evalStatements (stays_call_of_code limit) program.statements hcode hs
      hframe .null
    exact leads_of_finish hstays hrun

/-- A session goes through reachable stores only, and all that it answers is in them. -/
theorem reachable_of_session {limit : Nat} {texts : List String}
    (hcode : ∀ source ∈ texts, ∀ node ∈ nodesOfStatements (Program.ofSource source).statements,
      m.code node) {s : Store Token} {steps : List Step} (hs : s.Reachable m)
    (h : session limit s texts = some steps) :
    ∀ step ∈ steps, step.store.Reachable m ∧
      ∀ value, step.answer = .ok value → step.store.Admits m value := by
  induction texts generalizing s steps with
  | nil =>
    cases h
    exact nofun
  | cons source rest ih =>
    obtain ⟨hsource, hrest⟩ := List.forall_mem_cons.mp hcode
    rw [session_cons, Option.bind_eq_some_iff] at h
    obtain ⟨⟨answer, after⟩, hrun, h⟩ := h
    obtain ⟨steps', hsteps', rfl⟩ := Option.map_eq_some_iff.mp h
    obtain ⟨hleads, hanswer⟩ := Program.leads_of_run hsource hs hs.globalFrame_lt hrun
    exact List.forall_mem_cons.mpr ⟨⟨hleads.reachable, hanswer⟩, ih hrest hleads.reachable hsteps'⟩

end Programs

end Grammar

end Scriptlet
