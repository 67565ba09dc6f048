import Scriptlet.Proofs.Failures
import Scriptlet.Proofs.Quotes

/-! # Runs under watch

A watched run shows everything that it computes on the way: the value of each expression, what is
bound, what a built-in function is called with, and the keys that maps are made with and looked up
by. A watch that lets all clean things pass makes no difference if the code is clean, so nothing
else ever turns up. Strings without quotes are clean in this sense: the source of a string has none,
and joining strings brings none in.
-/

namespace Scriptlet

variable {α β γ : Type}

inductive Event where
  | computed (value : Value)
  | bound (name : String) (value : Value)
  | passed (builtin : Value.Builtin) (arguments : List Value)
  | keyed (key : Value.Key)

/-! ### Watched evaluation -/

section Watched

variable (watch : Event → Run α Unit)

namespace Run

def showing (run : Run α Value) : Run α Value := do
  let value ← run
  watch (.computed value)
  return value

/-- Shows the key that a map is looked up by. -/
def showKey (collection position : Value) : Run α Unit :=
  match collection, position.toKey with
  | .map _, .ok key => watch (.keyed key)
  | _, _ => pure ()

def watchedDeclareAll (frame : Nat) : List (Grammar.Ident α × Value) → Run α Unit
  | [] => pure ()
  | (parameter, argument) :: rest => do
    watch (.bound parameter.name argument)
    declare frame parameter.name argument
    watchedDeclareAll frame rest

end Run

namespace Grammar

section Evaluation

variable (call : α → Value → List Value → Run α Value) (frame : Nat)

mutual

def Expr.watched : Expr α → Run α Value
  | .int _ value => Run.showing watch (pure (.int value))
  | .bool _ value => Run.showing watch (pure (.bool value))
  | .name label name => Run.showing watch (Run.name label frame name)
  | .string _ text => Run.showing watch (pure (.string text))
  | .array _ elements => Run.showing watch do
    return .array (← watchedAll elements)
  | .map _ entries => Run.showing watch do
    return .map (← watchedEntries [] entries)
  | .unary label op operand => Run.showing watch do
    let operand ← operand.watched
    Run.ofExcept label (operand.unary op)
  | .binary label op lhs rhs => Run.showing watch do
    let lhs ← lhs.watched
    let rhs ← rhs.watched
    Run.ofExcept label (Value.binary op lhs rhs)
  | .branch _ condition consequence alternative => Run.showing watch do
    let condition ← condition.watched
    if condition.isTruthy then consequence.watched else watchedAlternative alternative
  | .function _ parameters body => Run.showing watch (Run.close ⟨parameters, body, frame⟩)
  | .call label callee arguments => Run.showing watch do
    let callee ← callee.watched
    let arguments ← watchedAll arguments
    call label callee arguments
  | .index label collection position => Run.showing watch do
    let collection ← collection.watched
    let position ← position.watched
    Run.showKey watch collection position
    Run.ofExcept label (collection.index position)

def watchedAll : List (Expr α) → Run α (List Value)
  | [] => return []
  | expr :: rest => do
    let value ← expr.watched
    let values ← watchedAll rest
    return value :: values

def watchedEntries (known : List (Value.Key × Value)) :
    List (Expr α × Expr α) → Run α (List (Value.Key × Value))
  | [] => return known
  | (key, value) :: rest => do
    let position ← key.watched
    let position ← Run.ofExcept key.label position.toKey
    watch (.keyed position)
    let value ← value.watched
    watchedEntries (Entries.insert position value known) rest

def watchedAlternative : Option (Block α) → Run α Value
  | none => return .null
  | some block => block.watched

def Block.watched : Block α → Run α Value
  | .mk _ body => watchedStatements .null body

def Stmt.watched : Stmt α → Run α Value
  | .bind _ target value => do
    let value ← value.watched
    watch (.bound target.name value)
    Run.declare frame target.name value
    return value
  | .leave _ none => throw (.returned .null)
  | .leave _ (some value) => do
    let value ← value.watched
    throw (.returned value)
  | .expr _ value => value.watched
  | .block inner => inner.watched

def watchedStatements (last : Value) : List (Stmt α) → Run α Value
  | [] => return last
  | stmt :: rest => do
    let value ← stmt.watched
    watchedStatements value rest

end

end Evaluation

end Grammar

def Run.watchedCall : Nat → α → Value → List Value → Run α Value
  | _, site, .builtin builtin, arguments => do
    watch (.passed builtin arguments)
    Run.builtin site builtin arguments
  | limit, site, .function reference, arguments => do
    match (← get).closures[reference]? with
    | none => endless
    | some closure =>
      if closure.parameters.length ≠ arguments.length then
        throw (.failed (.wrongArity closure.parameters.length arguments.length) site)
      else
        match limit with
        | 0 => endless
        | limit + 1 => do
          let frame ← openFrame closure.frame
          watchedDeclareAll watch frame (closure.parameters.zip arguments)
          untilReturn (closure.body.watched watch (watchedCall limit) frame)
  | _, site, value, _ => throw (.failed (.typeMismatch [.function] value.kind) site)

end Watched

namespace Grammar

variable (watch : Event → Run Token Unit) (limit : Nat)

def Program.watchedRun (frame : Nat) (program : Program Token) (store : Store Token) :
    Option (Except Failure Value × Store Token) :=
  match program.errors with
  | [] =>
    (watchedStatements watch (Run.watchedCall watch limit) frame .null program.statements).finish
      store
  | first :: _ => some (.error ⟨.malformed program.errors, first.span⟩, store)

def watchedSession : Store Token → List String → Option (List Step)
  | _, [] => some []
  | store, source :: rest => do
    let (answer, after) ← (Program.ofSource source).watchedRun watch limit Store.globalFrame store
    let steps ← watchedSession after rest
    return ⟨source, answer, after⟩ :: steps

end Grammar

/-! ### Clean things -/

section Clean

variable (m : Material α)

/-- The strings in the value are of the material, at any depth. -/
def Value.Clean (value : Value) : Prop :=
  value.MadeOf m.text fun _ => True

def Event.Clean : Event → Prop
  | computed value | bound _ value => value.Clean m
  | passed _ arguments => ∀ argument ∈ arguments, argument.Clean m
  | keyed key => key.MadeOf m.text

/-- Of what is clean the watch takes no notice. -/
def Quiet (watch : Event → Run α Unit) : Prop :=
  ∀ event, event.Clean m → watch event = pure ()

def Interrupt.Clean : Interrupt α → Prop
  | returned value => value.Clean m
  | failed _ _ => True

/-- What is bound in any frame is clean, and so is the code of any function. -/
structure Store.Clean (s : Store α) : Prop where
  binding : ∀ frame ∈ s.frames, ∀ entry ∈ frame.bindings, entry.2.Clean m
  code : ∀ closure ∈ s.closures, ∀ node ∈ closure.nodes, m.code node

end Clean

variable {m : Material α} {s : Store α}

namespace Store.Clean

theorem initial : (initial : Store α).Clean m where
  binding := by
    intro frame hframe entry hentry
    obtain rfl := List.mem_singleton.mp (Array.mem_toList_iff.mpr hframe)
    cases hentry
  code := by
    intro closure hclosure
    cases Array.mem_toList_iff.mpr hclosure

variable (h : s.Clean m)

include h

theorem openFrame (parent : Nat) : (s.openFrame parent).2.Clean m where
  binding := by
    intro frame hframe entry hentry
    rcases Array.mem_push.mp hframe with hframe | rfl
    · exact h.binding frame hframe entry hentry
    · cases hentry
  code := h.code

theorem close {closure : Closure α} (hcode : ∀ node ∈ closure.nodes, m.code node) :
    (s.close closure).2.Clean m where
  binding := h.binding
  code := by
    intro other hother
    rcases Array.mem_push.mp hother with hother | rfl
    · exact h.code other hother
    · exact hcode

theorem declare {value : Value} (hvalue : value.Clean m) (id : Nat) (name : String) :
    (s.declare id name value).Clean m where
  binding := by
    intro frame hframe entry hentry
    obtain ⟨i, hi, rfl⟩ := Array.mem_iff_getElem.mp hframe
    simp only [Store.declare, Array.size_modify] at hi
    simp only [Store.declare, Array.getElem_modify] at hentry
    have hold := h.binding _ (Array.getElem_mem hi)
    split at hentry
    · rcases Entries.mem_insert hentry with rfl | hentry
      · exact hvalue
      · exact hold entry hentry
    · exact hold entry hentry
  code := h.code

theorem write (text : String) : (s.write text).Clean m :=
  ⟨h.binding, h.code⟩

theorem lookup {id : Nat} {name : String} {value : Value}
    (hlookup : s.lookup id name = some value) : value.Clean m := by
  obtain ⟨frame, hframe, hfind⟩ := List.exists_of_findSome?_eq_some hlookup
  obtain ⟨id', hframe⟩ := Store.exists_of_mem_chain hframe
  exact h.binding frame (Array.mem_of_getElem? hframe) (name, value) (Entries.mem_of_find? hfind)

end Store.Clean

namespace Run

/-- From a clean store the watched run is the same as the run without the watch, and it leads to
clean stores and results only. -/
def Passes (m : Material α) (run watched : Run α β) (Q : β → Prop) : Prop :=
  ∀ s, s.Clean m → watched s = run s ∧
    run.EndsIn s (fun value t => t.Clean m ∧ Q value)
      fun interrupt t => t.Clean m ∧ interrupt.Clean m

namespace Passes

variable {Q : β → Prop}

theorem bind {x x' : Run α γ} {f f' : γ → Run α β} {P : γ → Prop} (hx : Passes m x x' P)
    (hf : ∀ value, P value → Passes m (f value) (f' value) Q) :
    Passes m (x >>= f) (x' >>= f') Q := by
  intro s hs
  obtain ⟨hsame, hends⟩ := hx s hs
  constructor
  · rw [bind_apply, bind_apply, hsame]
    cases hrun : x s with
    | none => rfl
    | some ending =>
      obtain ⟨result, t⟩ := ending
      cases result with
      | ok value =>
        obtain ⟨ht, hvalue⟩ := hends _ t hrun
        exact (hf value hvalue t ht).1
      | error interrupt => rfl
  · exact EndsIn.bind hends (fun value t h => (hf value h.2 t h.1).2) fun _ _ h => h

theorem of_step {run : Run α β} {value : Store α → β} {next : Store α → Store α}
    (hrun : ∀ s, run s = some (.ok (value s), next s)) (hnext : ∀ s, s.Clean m → (next s).Clean m)
    (h : ∀ s, Q (value s)) : Passes m run run Q := by
  refine fun s hs => ⟨rfl, fun result t hend => ?_⟩
  cases (hrun s).symm.trans hend
  exact ⟨hnext s hs, h s⟩

theorem pure {value : β} (h : Q value) : Passes m (Pure.pure value) (Pure.pure value) Q :=
  of_step (fun _ => rfl) (fun _ hs => hs) fun _ => h

theorem throw {interrupt : Interrupt α} (h : interrupt.Clean m) :
    Passes m (MonadExcept.throw interrupt : Run α β) (MonadExcept.throw interrupt) Q :=
  fun _ hs => ⟨rfl, EndsIn.throw ⟨hs, h⟩⟩

theorem endless : Passes m (Run.endless : Run α β) Run.endless Q :=
  fun _ _ => ⟨rfl, fun _ _ => nofun⟩

theorem ofExcept {site : α} {outcome : Except Fault β}
    (h : ∀ value, outcome = .ok value → Q value) :
    Passes m (Run.ofExcept site outcome) (Run.ofExcept site outcome) Q := by
  cases outcome with
  | ok value => exact pure (h value rfl)
  | error fault => exact throw trivial

theorem get {f f' : Store α → Run α β} (h : ∀ s, s.Clean m → Passes m (f s) (f' s) Q) :
    Passes m (MonadState.get >>= f) (MonadState.get >>= f') Q :=
  fun s hs => h s hs s hs

theorem name (site : α) (frame : Nat) (name : String) :
    Passes m (Run.name site frame name) (Run.name site frame name) (·.Clean m) := by
  refine get fun s hs => ?_
  cases hlookup : s.lookup frame name with
  | some value => exact pure (hs.lookup hlookup)
  | none =>
    dsimp only
    split
    · exact pure (.builtin _)
    · exact throw trivial

theorem close (closure : Closure α) (h : ∀ node ∈ closure.nodes, m.code node) :
    Passes m (Run.close closure) (Run.close closure) (·.Clean m) :=
  of_step (fun _ => rfl) (fun _ hs => hs.close h) fun _ => .function trivial

theorem openFrame (parent : Nat) :
    Passes m (Run.openFrame parent) (Run.openFrame parent) fun _ => True :=
  of_step (fun _ => rfl) (fun _ hs => hs.openFrame parent) fun _ => trivial

theorem declare {value : Value} (h : value.Clean m) (frame : Nat) (name : String) :
    Passes m (Run.declare frame name value) (Run.declare frame name value) fun _ => True :=
  of_step (fun _ => rfl) (fun _ hs => hs.declare h frame name) fun _ => trivial

theorem builtin (site : α) (function : Value.Builtin) {arguments : List Value}
    (h : ∀ argument ∈ arguments, argument.Clean m) :
    Passes m (Run.builtin site function arguments) (Run.builtin site function arguments)
      (·.Clean m) := by
  have hcall : Passes m (Run.ofExcept site (function.call arguments)) _ (·.Clean m) :=
    ofExcept fun value hok => Value.MadeOf.call h hok
  unfold Run.builtin
  split
  · have hwrite : Passes m (modify fun store : Store α =>
        store.write (String.join (arguments.map (store.render · ++ "\n")))) _ fun _ => True :=
      of_step (fun _ => rfl) (fun _ hs => hs.write _) fun _ => trivial
    exact hwrite.bind fun _ _ => hcall
  · exact hcall

theorem untilReturn {run watched : Run α Value} (h : Passes m run watched (·.Clean m)) :
    Passes m (Run.untilReturn run) (Run.untilReturn watched) (·.Clean m) := by
  intro s hs
  obtain ⟨hsame, hends⟩ := h s hs
  refine ⟨by rw [untilReturn_apply, untilReturn_apply, hsame], fun result t hrun => ?_⟩
  rw [untilReturn_apply, Option.map_eq_some_iff] at hrun
  obtain ⟨⟨inner, t'⟩, hinner, heq⟩ := hrun
  cases heq
  have hend := hends inner _ hinner
  rcases inner with (_ | _) | _ <;> exact hend

section Watch

variable {watch : Event → Run α Unit} (hwatch : Quiet m watch)

include hwatch

/-- What is clean passes. -/
theorem watch_bind (event : Event) {run watched : Run α β} (hevent : event.Clean m)
    (h : Passes m run watched Q) : Passes m run (watch event >>= fun _ => watched) Q := by
  rw [hwatch event hevent, pure_bind]
  exact h

theorem showing {run watched : Run α Value} (h : Passes m run watched (·.Clean m)) :
    Passes m run (Run.showing watch watched) (·.Clean m) := by
  rw [← bind_pure run]
  exact h.bind fun value hvalue => watch_bind hwatch (.computed value) hvalue (pure hvalue)

theorem showKey_bind {collection position : Value} (hposition : position.Clean m)
    {run watched : Run α β} (h : Passes m run watched Q) :
    Passes m run (Run.showKey watch collection position >>= fun _ => watched) Q := by
  unfold Run.showKey
  split
  · next key hkey => exact watch_bind hwatch (.keyed key) (hposition.toKey hkey) h
  · rwa [pure_bind]

theorem declareAll (frame : Nat) : ∀ {bindings : List (Grammar.Ident α × Value)},
    (∀ binding ∈ bindings, binding.2.Clean m) →
    Passes m (Run.declareAll frame bindings) (Run.watchedDeclareAll watch frame bindings)
      fun _ => True
  | [], _ => pure trivial
  | (parameter, argument) :: rest, h => by
    obtain ⟨hargument, hrest⟩ := List.forall_mem_cons.mp h
    refine watch_bind hwatch (.bound parameter.name argument) hargument ?_
    exact (declare hargument frame parameter.name).bind fun _ _ => declareAll frame hrest

end Watch

end Passes

end Run

namespace Grammar

open Run (Passes)

/-- Calls with clean values are not changed by the watch. -/
def CallsPass (m : Material α) (call call' : α → Value → List Value → Run α Value) : Prop :=
  ∀ site function arguments, Value.Clean m function →
    (∀ argument ∈ arguments, Value.Clean m argument) →
    Passes m (call site function arguments) (call' site function arguments) (·.Clean m)

section Evaluation

variable {watch : Event → Run α Unit} {call call' : α → Value → List Value → Run α Value}

open List (forall_mem_append forall_mem_cons)

mutual

theorem Expr.passes (hwatch : Quiet m watch) (hcall : CallsPass m call call') (frame : Nat) :
    ∀ expr : Expr α, (∀ node ∈ expr.nodes, m.code node) →
    Passes m (expr.eval call frame) (expr.watched watch call' frame) (·.Clean m)
  | .int _ _, _ => .showing hwatch (.pure (.int _))
  | .bool _ _, _ => .showing hwatch (.pure (.bool _))
  | .name label name, _ => .showing hwatch (.name label frame name)
  | .string label text, hcode =>
    .showing hwatch (.pure (.string (m.text_of_code label text (hcode _ List.mem_cons_self))))
  | .array _ elements, hcode => by
    have helements := passes_evalAll hwatch hcall frame elements (forall_mem_cons.mp hcode).2
    exact .showing hwatch (helements.bind fun values h => .pure (.array h))
  | .map _ entries, hcode => by
    have hentries := (forall_mem_cons.mp hcode).2
    have hentries := passes_evalEntries hwatch hcall frame entries [] hentries nofun nofun
    exact .showing hwatch (hentries.bind fun results h => .pure h)
  | .unary _ op operand, hcode => by
    have hoperand := operand.passes hwatch hcall frame (forall_mem_cons.mp hcode).2
    exact .showing hwatch (hoperand.bind fun _ _ => .ofExcept fun _ => Value.MadeOf.unary)
  | .binary _ op lhs rhs, hcode => by
    obtain ⟨hlhs, hrhs⟩ := forall_mem_append.mp (forall_mem_cons.mp hcode).2
    refine .showing hwatch ((lhs.passes hwatch hcall frame hlhs).bind fun a ha => ?_)
    refine (rhs.passes hwatch hcall frame hrhs).bind fun b hb => ?_
    exact .ofExcept fun _ => Value.MadeOf.binary m.text_append ha hb
  | .branch _ condition consequence alternative, hcode => by
    obtain ⟨h, halternative⟩ := forall_mem_append.mp (forall_mem_cons.mp hcode).2
    obtain ⟨hcondition, hconsequence⟩ := forall_mem_append.mp h
    refine .showing hwatch ((condition.passes hwatch hcall frame hcondition).bind fun value _ => ?_)
    split
    · exact consequence.passes hwatch hcall frame hconsequence
    · exact passes_evalAlternative hwatch hcall frame alternative halternative
  | .function _ parameters body, hcode =>
    .showing hwatch (.close ⟨parameters, body, frame⟩ (forall_mem_cons.mp hcode).2)
  | .call label callee arguments, hcode => by
    obtain ⟨hcallee, harguments⟩ := forall_mem_append.mp (forall_mem_cons.mp hcode).2
    refine .showing hwatch ((callee.passes hwatch hcall frame hcallee).bind
      fun function hfunction => ?_)
    exact (passes_evalAll hwatch hcall frame arguments harguments).bind fun values hvalues =>
      hcall label function values hfunction hvalues
  | .index _ collection position, hcode => by
    obtain ⟨hcollection, hposition⟩ := forall_mem_append.mp (forall_mem_cons.mp hcode).2
    refine .showing hwatch ((collection.passes hwatch hcall frame hcollection).bind fun a ha => ?_)
    refine (position.passes hwatch hcall frame hposition).bind
      fun b hb => .showKey_bind hwatch hb ?_
    exact .ofExcept fun _ => Value.MadeOf.index ha

theorem passes_evalAll (hwatch : Quiet m watch) (hcall : CallsPass m call call') (frame : Nat) :
    ∀ values : List (Expr α), (∀ node ∈ nodesOfAll values, m.code node) →
    Passes m (evalAll call frame values) (watchedAll watch call' frame values)
      fun results => ∀ value ∈ results, value.Clean m
  | [], _ => .pure nofun
  | expr :: rest, hcode => by
    obtain ⟨hexpr, hrest⟩ := forall_mem_append.mp hcode
    refine (expr.passes hwatch hcall frame hexpr).bind fun value hvalue => ?_
    exact (passes_evalAll hwatch hcall frame rest hrest).bind fun values hvalues =>
      .pure (forall_mem_cons.mpr ⟨hvalue, hvalues⟩)

theorem passes_evalEntries (hwatch : Quiet m watch) (hcall : CallsPass m call call') (frame : Nat) :
    ∀ (entries : List (Expr α × Expr α))
    (known : List (Value.Key × Value)), (∀ node ∈ nodesOfEntries entries, m.code node) →
    (∀ entry ∈ known, entry.1.MadeOf m.text) → (∀ entry ∈ known, entry.2.Clean m) →
    Passes m (evalEntries call frame known entries) (watchedEntries watch call' frame known entries)
      fun results => (Value.map results).Clean m
  | [], _, _, hkeys, hvalues => .pure (.map hkeys hvalues)
  | (key, value) :: rest, known, hcode, hkeys, hvalues => by
    obtain ⟨h, hrest⟩ := forall_mem_append.mp hcode
    obtain ⟨hkey, hvalue⟩ := forall_mem_append.mp h
    refine (key.passes hwatch hcall frame hkey).bind fun position hposition => ?_
    refine Passes.bind (P := (·.MadeOf m.text)) (.ofExcept fun _ => hposition.toKey)
      fun position hposition => .watch_bind hwatch (.keyed position) hposition ?_
    refine (value.passes hwatch hcall frame hvalue).bind fun result hresult => ?_
    refine passes_evalEntries hwatch hcall frame rest _ hrest ?_ ?_
    · intro entry hentry
      rcases Entries.mem_insert hentry with rfl | hentry
      · exact hposition
      · exact hkeys entry hentry
    · intro entry hentry
      rcases Entries.mem_insert hentry with rfl | hentry
      · exact hresult
      · exact hvalues entry hentry

theorem passes_evalAlternative (hwatch : Quiet m watch) (hcall : CallsPass m call call')
    (frame : Nat) :
    ∀ alternative : Option (Block α),
    (∀ node ∈ nodesOfAlternative alternative, m.code node) →
    Passes m (evalAlternative call frame alternative)
      (watchedAlternative watch call' frame alternative) (·.Clean m)
  | none, _ => .pure .null
  | some block, hcode => block.passes hwatch hcall frame hcode

theorem Block.passes (hwatch : Quiet m watch) (hcall : CallsPass m call call') (frame : Nat) :
    ∀ block : Block α, (∀ node ∈ block.nodes, m.code node) →
    Passes m (block.eval call frame) (block.watched watch call' frame) (·.Clean m)
  | .mk _ body, hcode => passes_evalStatements hwatch hcall frame body hcode .null

theorem Stmt.passes (hwatch : Quiet m watch) (hcall : CallsPass m call call') (frame : Nat) :
    ∀ stmt : Stmt α, (∀ node ∈ stmt.nodes, m.code node) →
    Passes m (stmt.eval call frame) (stmt.watched watch call' frame) (·.Clean m)
  | .bind _ target value, hcode => by
    have hvalue := (forall_mem_cons.mp (forall_mem_cons.mp hcode).2).2
    refine (value.passes hwatch hcall frame hvalue).bind fun result hresult => ?_
    refine .watch_bind hwatch (.bound target.name result) hresult ?_
    exact (Passes.declare hresult frame target.name).bind fun _ _ => .pure hresult
  | .leave _ none, _ => .throw .null
  | .leave _ (some value), hcode =>
    (value.passes hwatch hcall frame (forall_mem_cons.mp hcode).2).bind
      fun _ hresult => .throw hresult
  | .expr _ value, hcode => value.passes hwatch hcall frame (forall_mem_cons.mp hcode).2
  | .block inner, hcode => inner.passes hwatch hcall frame (forall_mem_cons.mp hcode).2

theorem passes_evalStatements (hwatch : Quiet m watch) (hcall : CallsPass m call call')
    (frame : Nat) :
    ∀ stmts : List (Stmt α),
    (∀ node ∈ nodesOfStatements stmts, m.code node) → ∀ {last : Value}, last.Clean m →
    Passes m (evalStatements call frame last stmts) (watchedStatements watch call' frame last stmts)
      (·.Clean m)
  | [], _, _, hlast => .pure hlast
  | stmt :: rest, hcode, _, _ => by
    obtain ⟨hstmt, hrest⟩ := forall_mem_append.mp hcode
    exact (stmt.passes hwatch hcall frame hstmt).bind fun value hvalue =>
      passes_evalStatements hwatch hcall frame rest hrest hvalue

end

end Evaluation

section Calls

variable {watch : Event → Run α Unit} (hwatch : Quiet m watch)

include hwatch

theorem passes_call : ∀ (limit : Nat) (site : α) (function : Value) (arguments : List Value),
    function.Clean m → (∀ argument ∈ arguments, argument.Clean m) →
    Passes m (Run.call limit site function arguments)
      (Run.watchedCall watch limit site function arguments) (·.Clean m)
  | _, site, .builtin function, arguments, _, harguments => by
    rw [Run.call, Run.watchedCall]
    refine .watch_bind hwatch (.passed function arguments) harguments ?_
    exact .builtin site function harguments
  | limit, site, .function reference, arguments, _, harguments => by
    unfold Run.call Run.watchedCall
    refine .get fun s hs => ?_
    cases hclosure : s.closures[reference]? with
    | none => exact .endless
    | some closure =>
      dsimp only
      split
      · exact .throw trivial
      · cases limit with
        | zero => exact .endless
        | succ limit =>
          have hcode := hs.code closure (Array.mem_of_getElem? hclosure)
          refine (Passes.openFrame closure.frame).bind fun frame _ => ?_
          refine (Passes.declareAll hwatch frame ?_).bind fun _ _ => ?_
          · intro binding hbinding
            exact harguments binding.2 (List.of_mem_zip hbinding).2
          · exact (closure.body.passes hwatch (passes_call limit) frame
              (List.forall_mem_append.mp hcode).2).untilReturn
  | _, site, .int _, _, _, _ | _, site, .bool _, _, _, _ | _, site, .string _, _, _, _
  | _, site, .array _, _, _, _ | _, site, .map _, _, _, _ | _, site, .null, _, _, _ => by
    rw [Run.call, Run.watchedCall]
    · exact .throw trivial
    all_goals
      intro _ h
      cases h

end Calls

/-! ### Sessions -/

section Programs

variable {m : Material Token} {watch : Event → Run Token Unit} (limit : Nat)

theorem Program.watchedRun_eq (hwatch : Quiet m watch)
    {program : Program Token}
    (hcode : program.errors = [] → ∀ node ∈ nodesOfStatements program.statements, m.code node)
    (frame : Nat) {s : Store Token} (hs : s.Clean m) :
    program.watchedRun watch limit frame s = program.run limit frame s ∧
      ∀ answer t, program.run limit frame s = some (answer, t) →
        t.Clean m ∧ ∀ value, answer = .ok value → value.Clean m := by
  rw [Program.watchedRun, Program.run]
  cases herrors : program.errors with
  | cons first rest =>
    refine ⟨rfl, fun answer t hrun => ?_⟩
    cases hrun
    exact ⟨hs, fun _ h => by cases h⟩
  | nil =>
    obtain ⟨hsame, hends⟩ := passes_evalStatements hwatch (passes_call hwatch limit) frame
      program.statements (hcode herrors) .null s hs
    dsimp only
    rw [Run.finish_apply, Run.finish_apply, hsame]
    refine ⟨rfl, fun answer t hrun => ?_⟩
    obtain ⟨⟨result, t'⟩, heval, heq⟩ := Option.map_eq_some_iff.mp hrun
    cases heq
    have hend := hends result _ heval
    rcases result with (_ | _) | _
    · exact ⟨hend.1, fun _ h => by cases h; exact hend.2⟩
    · exact ⟨hend.1, fun _ h => by cases h⟩
    · exact ⟨hend.1, fun _ h => by cases h; exact hend.2⟩

theorem watchedSession_eq (hwatch : Quiet m watch)
    {texts : List String} (hcode : ∀ source ∈ texts, (Program.ofSource source).errors = [] →
      ∀ node ∈ nodesOfStatements (Program.ofSource source).statements, m.code node)
    {s : Store Token} (hs : s.Clean m) :
    watchedSession watch limit s texts = session limit s texts ∧
      ∀ steps, session limit s texts = some steps → ∀ step ∈ steps, step.store.Clean m ∧
        ∀ value, step.answer = .ok value → value.Clean m := by
  induction texts generalizing s with
  | nil =>
    refine ⟨rfl, fun steps hsteps => ?_⟩
    cases hsteps
    exact nofun
  | cons source rest ih =>
    obtain ⟨hsource, hrest⟩ := List.forall_mem_cons.mp hcode
    obtain ⟨hsame, hends⟩ := Program.watchedRun_eq limit hwatch hsource Store.globalFrame hs
    rw [watchedSession, session, hsame]
    cases hrun : (Program.ofSource source).run limit Store.globalFrame s with
    | none => exact ⟨rfl, fun _ h => by cases h⟩
    | some ending =>
      obtain ⟨answer, after⟩ := ending
      obtain ⟨hafter, hanswer⟩ := hends answer after hrun
      obtain ⟨hsame, hsteps⟩ := ih hrest hafter
      refine ⟨?_, fun steps h => ?_⟩
      · simp only [Option.bind_eq_bind, Option.bind_some, hsame]
      · simp only [Option.bind_eq_bind, Option.bind_some, Option.bind_eq_some_iff] at h
        obtain ⟨steps', hsteps', heq⟩ := h
        cases heq
        exact List.forall_mem_cons.mpr ⟨⟨hafter, hanswer⟩, hsteps steps' hsteps'⟩

end Programs

/-! ### Quotes -/

/-- Code that can be written, and strings without quotes. -/
def legible : Material Token where
  code := Node.Legible
  text := ('"' ∉ ·.toList)
  text_of_code _ _ h := h
  text_append s t hs ht := by
    rw [String.toList_append, List.mem_append, not_or]
    exact ⟨hs, ht⟩

end Grammar

/-- The strings in a function, from left to right. -/
def Store.functionStrings (s : Store α) (reference : Nat) : List String :=
  (s.closures[reference]?.map fun closure => Grammar.stringsOf closure.nodes).getD []

open Text (Quotes)

theorem Store.Clean.quotes_functionText {s : Store Token} (h : s.Clean Grammar.legible)
    (reference : Nat) : Quotes (s.functionText reference).toList (s.functionStrings reference) := by
  rw [functionText, functionStrings]
  cases hclosure : s.closures[reference]? with
  | none => exact .nil
  | some closure => exact Closure.quotes_render (h.code closure (Array.mem_of_getElem? hclosure))

/-- No string in it has a quote in it. -/
def Event.QuoteFree : Event → Prop
  | computed value | bound _ value => value.QuoteFree
  | passed _ arguments => ∀ argument ∈ arguments, argument.QuoteFree
  | keyed key => key.MadeOf ('"' ∉ ·.toList)

namespace Grammar

/-- In a session no string has a quote in it, be it answered, bound in any frame, or met by a watch,
which sees whatever is computed, bound, passed to a built-in function or used as a key. So the
quotes in the text of a collection tell which strings are in it. -/
theorem quoteFree_of_session (limit : Nat) (texts : List String) :
    (∀ steps, session limit .initial texts = some steps → ∀ step ∈ steps,
      (∀ value, step.answer = .ok value → value.QuoteFree) ∧
      (∀ frame ∈ step.store.frames, ∀ binding ∈ frame.bindings, binding.2.QuoteFree) ∧
      ∀ value : Value, value.QuoteFree → ∀ strings,
        Quotes (value.renderAs step.store.functionText false).toList strings ↔
          strings = value.strings step.store.functionStrings) ∧
    ∀ watch : Event → Run Token Unit, (∀ event, event.QuoteFree → watch event = pure ()) →
      watchedSession watch limit .initial texts = session limit .initial texts := by
  have hcode : ∀ source ∈ texts, (Program.ofSource source).errors = [] →
      ∀ node ∈ nodesOfStatements (Program.ofSource source).statements, legible.code node :=
    fun _ _ herrors => Program.legible_ofSource herrors
  refine ⟨fun steps hsteps step hstep => ?_, fun watch hwatch => ?_⟩
  · let unwatched : Event → Run Token Unit := fun _ => pure ()
    have hunwatched : ∀ event : Event, event.Clean legible → unwatched event = pure () :=
      fun _ _ => rfl
    obtain ⟨hstore, hanswer⟩ :=
      (watchedSession_eq limit hunwatched hcode .initial).2 steps hsteps step hstep
    refine ⟨hanswer, hstore.binding, fun value hvalue strings => ?_⟩
    have hquotes := Value.quotes_renderAs hstore.quotes_functionText value hvalue
    exact ⟨fun h => h.unique hquotes, fun h => h ▸ hquotes⟩
  · have hclean : ∀ event : Event, event.Clean legible → watch event = pure () := by
      intro event hevent
      refine hwatch event ?_
      cases event <;> exact hevent
    exact (watchedSession_eq limit hclean hcode .initial).1

end Grammar

end Scriptlet
