import Scriptlet.Proofs.Renamed

/-! # Runs under other numbers

From a store that holds everything under other numbers, a run goes the same way, and it ends in the
same way but for the numbers. Nothing can tell the two stores apart, however deeply functions are
called.
-/

namespace Scriptlet

variable {α β γ δ ε : Type}

def Interrupt.rename (f : Nat → Nat) : Interrupt α → Interrupt α
  | .returned value => .returned (value.rename f)
  | .failed fault site => .failed fault site

/-- The end of a run under other numbers, where `f` puts them into its value. -/
def renameEnd (ρ : Renaming) (f : β → γ) (result : Except (Interrupt α) β) :
    Except (Interrupt α) γ :=
  (result.map f).mapError (Interrupt.rename ρ.reference)

/-- From a store with other numbers the second run ends as the first one does, and leaves a store
with other numbers. -/
def Follows (ρ : Renaming) (f : β → γ) (run : Run α β) (run' : Run α γ) : Prop :=
  ∀ s t, s.Renamed ρ t → t.output = s.output → ∀ result after, run s = some (result, after) →
    ∃ after', run' t = some (renameEnd ρ f result, after') ∧ after.Renamed ρ after' ∧
      after'.output = after.output

namespace Follows

variable {ρ : Renaming} {f : β → γ}

/-- Runs that always end. -/
theorem of_step {run : Run α β} {run' : Run α γ} {result : Store α → Except (Interrupt α) β}
    {result' : Store α → Except (Interrupt α) γ} {next next' : Store α → Store α}
    (hrun : ∀ s, run s = some (result s, next s)) (hrun' : ∀ t, run' t = some (result' t, next' t))
    (hstep : ∀ s t, s.Renamed ρ t → t.output = s.output →
      result' t = renameEnd ρ f (result s) ∧ (next s).Renamed ρ (next' t) ∧
        (next' t).output = (next s).output) :
    Follows ρ f run run' := by
  intro s t hst hout r after h
  cases (hrun s).symm.trans h
  obtain ⟨hresult, hnext⟩ := hstep s t hst hout
  exact ⟨next' t, by rw [hrun', hresult], hnext⟩

theorem pure {value : β} {value' : γ} (h : value' = f value) :
    Follows ρ f (Pure.pure value : Run α β) (Pure.pure value') :=
  of_step (fun _ => rfl) (fun _ => rfl) fun _ _ hst hout => ⟨by rw [h]; rfl, hst, hout⟩

theorem throw (interrupt : Interrupt α) :
    Follows ρ f (MonadExcept.throw interrupt : Run α β)
      (MonadExcept.throw (interrupt.rename ρ.reference)) :=
  of_step (fun _ => rfl) (fun _ => rfl) fun _ _ hst hout => ⟨rfl, hst, hout⟩

theorem endless : Follows ρ f (Run.endless : Run α β) Run.endless :=
  fun _ _ _ _ => nofun

theorem bind {g : δ → ε} {x : Run α β} {x' : Run α γ} {k : β → Run α δ} {k' : γ → Run α ε}
    (hx : Follows ρ f x x') (hk : ∀ value, Follows ρ g (k value) (k' (f value))) :
    Follows ρ g (x >>= k) (x' >>= k') := by
  intro s t hst hout result after h
  rw [Run.bind_apply, Option.bind_eq_some_iff] at h
  obtain ⟨⟨first, s₁⟩, hfirst, hrest⟩ := h
  obtain ⟨t₁, hfirst', hst₁, hout₁⟩ := hx s t hst hout first s₁ hfirst
  cases first with
  | ok value =>
    rw [Run.bind_of_ok hfirst']
    exact hk value s₁ t₁ hst₁ hout₁ result after hrest
  | error interrupt =>
    cases hrest
    exact ⟨t₁, Run.bind_of_error hfirst', hst₁, hout₁⟩

theorem ofExcept (site : α) {outcome : Except Fault β} {outcome' : Except Fault γ}
    (h : outcome' = outcome.map f) :
    Follows ρ f (Run.ofExcept site outcome) (Run.ofExcept site outcome') := by
  subst h
  cases outcome with
  | ok value => exact pure rfl
  | error fault => exact throw (.failed fault site)

theorem get {k : Store α → Run α β} {k' : Store α → Run α γ}
    (hk : ∀ s t, s.Renamed ρ t → Follows ρ f (k s) (k' t)) :
    Follows ρ f (MonadState.get >>= k) (MonadState.get >>= k') :=
  fun s t hst => hk s t hst s t hst

theorem name (site : α) (frame : Nat) (name : String) :
    Follows ρ (Value.rename ρ.reference) (Run.name site frame name)
      (Run.name site (ρ.frame frame) name) := by
  refine get fun s t hst => ?_
  rw [hst.lookup]
  cases s.lookup frame name with
  | some value => exact pure rfl
  | none =>
    dsimp only [Option.map_none]
    split
    · exact pure rfl
    · exact throw (.failed _ site)

theorem close (closure : Closure α) :
    Follows ρ (Value.rename ρ.reference) (Run.close closure) (Run.close (closure.rename ρ)) := by
  refine of_step (fun _ => rfl) (fun _ => rfl) fun s t hst hout => ?_
  obtain ⟨hreference, hclosed⟩ := hst.close closure
  exact ⟨congrArg (fun r => Except.ok (Value.function r)) hreference, hclosed, hout⟩

theorem openFrame (parent : Nat) :
    Follows ρ ρ.frame (Run.openFrame parent : Run α Nat) (Run.openFrame (ρ.frame parent)) := by
  refine of_step (fun _ => rfl) (fun _ => rfl) fun s t hst hout => ?_
  obtain ⟨hframe, hopened⟩ := hst.openFrame parent
  exact ⟨congrArg Except.ok hframe, hopened, hout⟩

theorem declare (frame : Nat) (name : String) (value : Value) :
    Follows ρ id (Run.declare frame name value : Run α Unit)
      (Run.declare (ρ.frame frame) name (value.rename ρ.reference)) :=
  of_step (fun _ => rfl) (fun _ => rfl) fun _ _ hst hout =>
    ⟨rfl, hst.declare frame name value, hout⟩

theorem declareAll (frame : Nat) : ∀ (parameters : List (Grammar.Ident α)) (arguments : List Value),
    Follows ρ id (Run.declareAll frame (parameters.zip arguments))
      (Run.declareAll (ρ.frame frame)
        (parameters.zip (arguments.map (Value.rename ρ.reference))))
  | [], _ => pure rfl
  | _ :: _, [] => pure rfl
  | parameter :: parameters, argument :: arguments =>
    (declare frame parameter.name argument).bind fun _ => declareAll frame parameters arguments

theorem builtin (site : α) (function : Value.Builtin) (arguments : List Value) :
    Follows ρ (Value.rename ρ.reference) (Run.builtin site function arguments)
      (Run.builtin site function (arguments.map (Value.rename ρ.reference))) := by
  unfold Run.builtin
  split
  · refine bind (f := id) ?_ fun _ => ofExcept site (Value.Builtin.call_rename function arguments)
    refine of_step (fun _ => rfl) (fun _ => rfl) fun s t hst hout => ⟨rfl, hst.withOutput _ _, ?_⟩
    simp only [Store.write, List.map_map, Function.comp_def, hst.render, hout]
  · exact ofExcept site (Value.Builtin.call_rename function arguments)

theorem untilReturn {run run' : Run α Value}
    (h : Follows ρ (Value.rename ρ.reference) run run') :
    Follows ρ (Value.rename ρ.reference) (Run.untilReturn run) (Run.untilReturn run') := by
  intro s t hst hout result after hrun
  rw [Run.untilReturn_apply, Option.map_eq_some_iff] at hrun
  obtain ⟨⟨inner, s₁⟩, hinner, heq⟩ := hrun
  cases heq
  obtain ⟨t₁, hinner', hst₁, hout₁⟩ := h s t hst hout inner _ hinner
  refine ⟨t₁, ?_, hst₁, hout₁⟩
  rw [Run.untilReturn_apply, hinner', Option.map_some]
  rcases inner with (_ | _) | _ <;> rfl

end Follows

namespace Grammar

variable {ρ : Renaming}

/-- Calls go the same way under other numbers. -/
def CallsFollow (ρ : Renaming) (call : α → Value → List Value → Run α Value) : Prop :=
  ∀ site function arguments, Follows ρ (Value.rename ρ.reference) (call site function arguments)
    (call site (function.rename ρ.reference) (arguments.map (Value.rename ρ.reference)))

section Evaluation

variable {call : α → Value → List Value → Run α Value} {frame : Nat}

mutual

theorem Expr.follows (hcall : CallsFollow ρ call) :
    ∀ expr : Expr α, Follows ρ (Value.rename ρ.reference)
    (expr.eval call frame) (expr.eval call (ρ.frame frame))
  | .int _ _ | .bool _ _ | .string _ _ => Follows.pure rfl
  | .name label name => Follows.name label frame name
  | .array _ elements =>
    (follows_evalAll hcall elements).bind fun values =>
      Follows.pure (Value.rename_array values).symm
  | .map _ entries =>
    (follows_evalEntries hcall entries []).bind fun pairs =>
      Follows.pure (Value.rename_map pairs).symm
  | .unary label op operand =>
    (operand.follows hcall).bind fun value => Follows.ofExcept label (Value.unary_rename op value)
  | .binary label op lhs rhs =>
    (lhs.follows hcall).bind fun a => (rhs.follows hcall).bind fun b =>
      Follows.ofExcept label (Value.binary_rename ρ.injective_reference op a b)
  | .branch _ condition consequence alternative => by
    refine (condition.follows hcall).bind fun value => ?_
    rw [Value.isTruthy_rename]
    split
    · exact consequence.follows hcall
    · exact follows_evalAlternative hcall alternative
  | .function _ parameters body => Follows.close ⟨parameters, body, frame⟩
  | .call label callee arguments =>
    (callee.follows hcall).bind fun function => (follows_evalAll hcall arguments).bind fun values =>
      hcall label function values
  | .index label collection position =>
    (collection.follows hcall).bind fun a => (position.follows hcall).bind fun b =>
      Follows.ofExcept label (Value.index_rename a b)

theorem follows_evalAll (hcall : CallsFollow ρ call) : ∀ values : List (Expr α),
    Follows ρ (List.map (Value.rename ρ.reference)) (evalAll call frame values)
      (evalAll call (ρ.frame frame) values)
  | [] => Follows.pure rfl
  | expr :: rest =>
    (expr.follows hcall).bind fun _ => (follows_evalAll hcall rest).bind fun _ => Follows.pure rfl

theorem follows_evalEntries (hcall : CallsFollow ρ call) : ∀ (entries : List (Expr α × Expr α))
    (known : List (Value.Key × Value)),
    Follows ρ (Entries.mapValues (Value.rename ρ.reference)) (evalEntries call frame known entries)
      (evalEntries call (ρ.frame frame) (Entries.mapValues (Value.rename ρ.reference) known)
        entries)
  | [], _ => Follows.pure rfl
  | (key, value) :: rest, known => by
    refine (key.follows hcall).bind fun position => ?_
    refine (Follows.ofExcept (f := id) key.label ?_).bind fun position => ?_
    · rw [Value.toKey_rename]
      cases position.toKey <;> rfl
    · refine (value.follows hcall).bind fun value => ?_
      rw [Entries.insert_mapValues]
      exact follows_evalEntries hcall rest _

theorem follows_evalAlternative (hcall : CallsFollow ρ call) : ∀ alternative : Option (Block α),
    Follows ρ (Value.rename ρ.reference) (evalAlternative call frame alternative)
      (evalAlternative call (ρ.frame frame) alternative)
  | none => Follows.pure rfl
  | some block => block.follows hcall

theorem Block.follows (hcall : CallsFollow ρ call) :
    ∀ block : Block α, Follows ρ (Value.rename ρ.reference)
    (block.eval call frame) (block.eval call (ρ.frame frame))
  | .mk _ body => follows_evalStatements hcall body .null

theorem Stmt.follows (hcall : CallsFollow ρ call) :
    ∀ stmt : Stmt α, Follows ρ (Value.rename ρ.reference)
    (stmt.eval call frame) (stmt.eval call (ρ.frame frame))
  | .bind _ target value =>
    (value.follows hcall).bind fun result =>
      (Follows.declare frame target.name result).bind fun _ => Follows.pure rfl
  | .leave _ none => Follows.throw (.returned .null)
  | .leave _ (some value) =>
    (value.follows hcall).bind fun result => Follows.throw (.returned result)
  | .expr _ value => value.follows hcall
  | .block inner => inner.follows hcall

theorem follows_evalStatements (hcall : CallsFollow ρ call) :
    ∀ (stmts : List (Stmt α)) (last : Value),
    Follows ρ (Value.rename ρ.reference) (evalStatements call frame last stmts)
      (evalStatements call (ρ.frame frame) (last.rename ρ.reference) stmts)
  | [], _ => Follows.pure rfl
  | stmt :: rest, _ =>
    (stmt.follows hcall).bind fun value => follows_evalStatements hcall rest value

end

end Evaluation

/-- A call goes the same way under other numbers. -/
theorem follows_call (ρ : Renaming) : ∀ (limit : Nat) (site : α) (function : Value)
    (arguments : List Value),
    Follows ρ (Value.rename ρ.reference) (Run.call limit site function arguments)
      (Run.call limit site (function.rename ρ.reference)
        (arguments.map (Value.rename ρ.reference)))
  | _, site, .builtin function, arguments => by
    rw [Value.rename, Run.call, Run.call]
    exact Follows.builtin site function arguments
  | limit, site, .function reference, arguments => by
    unfold Run.call
    -- Both references lead to the same code, in frames that are renamed to each other.
    refine Follows.get fun s t hst => ?_
    rw [hst.closures]
    cases s.closures[reference]? with
    | none => exact Follows.endless
    | some closure =>
      simp only [Option.map_some, List.length_map, Closure.rename]
      split
      · exact Follows.throw (.failed _ site)
      · cases limit with
        | zero => exact Follows.endless
        | succ limit =>
          refine (Follows.openFrame closure.frame).bind fun frame => ?_
          refine (Follows.declareAll frame closure.parameters arguments).bind fun _ => ?_
          exact (closure.body.follows (follows_call ρ limit)).untilReturn
  | _, site, .int _, _ | _, site, .bool _, _ | _, site, .string _, _ | _, site, .array _, _
  | _, site, .map _, _ | _, site, .null, _ => by
    rw [Value.rename, Run.call, Run.call]
    · exact Follows.throw (.failed _ site)
    all_goals exact nofun

end Grammar

end Scriptlet
