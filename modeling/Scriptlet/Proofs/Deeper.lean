import Scriptlet.Proofs.Effect

/-! # How calls end

The limit on the depth of calls only cuts runs off: what ends under one limit ends in the same way
under every higher one. And a call ends with a value or a fault, for no return goes beyond it.
-/

namespace Scriptlet

variable {α β γ : Type}

namespace Run

/-- However the first run ends, the second one ends in the same way. -/
def Extends (run run' : Run α β) : Prop :=
  ∀ s ending, run s = some ending → run' s = some ending

/-- The run does not end by a return. -/
def Settles (run : Run α β) : Prop :=
  ∀ s value t, run s ≠ some (.error (.returned value), t)

namespace Extends

theorem refl (run : Run α β) : Extends run run :=
  fun _ _ h => h

theorem endless (run : Run α β) : Extends Run.endless run :=
  fun _ _ => nofun

theorem bind {x x' : Run α β} {k k' : β → Run α γ} (hx : Extends x x')
    (hk : ∀ value, Extends (k value) (k' value)) : Extends (x >>= k) (x' >>= k') := by
  intro s ending h
  rw [bind_apply, Option.bind_eq_some_iff] at h
  obtain ⟨⟨result, t⟩, hfirst, hrest⟩ := h
  rw [bind_apply, hx s _ hfirst]
  cases result with
  | ok value => exact hk value t ending hrest
  | error interrupt => exact hrest

theorem get {k k' : Store α → Run α β} (hk : ∀ store, Extends (k store) (k' store)) :
    Extends (MonadState.get >>= k) (MonadState.get >>= k') :=
  fun s => hk s s

theorem untilReturn {run run' : Run α Value} (h : Extends run run') :
    Extends (Run.untilReturn run) (Run.untilReturn run') := by
  intro s ending hrun
  rw [untilReturn_apply, Option.map_eq_some_iff] at hrun
  obtain ⟨inner, hinner, rfl⟩ := hrun
  rw [untilReturn_apply, h s inner hinner, Option.map_some]

end Extends

namespace Settles

theorem pure (value : β) : Settles (Pure.pure value : Run α β) :=
  fun _ _ _ => nofun

theorem endless : Settles (Run.endless : Run α β) :=
  fun _ _ _ => nofun

theorem fail (fault : Fault) (site : α) :
    Settles (MonadExcept.throw (.failed fault site) : Run α β) :=
  fun _ _ _ => nofun

theorem ofExcept (site : α) (outcome : Except Fault β) : Settles (Run.ofExcept site outcome) := by
  cases outcome with
  | ok value => exact pure value
  | error fault => exact fail fault site

theorem bind {x : Run α β} {k : β → Run α γ} (hx : Settles x) (hk : ∀ value, Settles (k value)) :
    Settles (x >>= k) := by
  intro s value t h
  rw [bind_apply, Option.bind_eq_some_iff] at h
  obtain ⟨⟨result, u⟩, hfirst, hrest⟩ := h
  cases result with
  | ok first => exact hk first u value t hrest
  | error interrupt =>
    cases hrest
    exact hx s value t hfirst

theorem declareAll (frame : Nat) : ∀ bindings : List (Grammar.Ident α × Value),
    Settles (Run.declareAll frame bindings)
  | [] => pure ()
  | _ :: rest => bind (fun _ _ _ => nofun) fun _ => declareAll frame rest

theorem builtin (site : α) (function : Value.Builtin) (arguments : List Value) :
    Settles (Run.builtin site function arguments) := by
  unfold Run.builtin
  split
  · exact bind (fun _ _ _ => nofun) fun _ => ofExcept site _
  · exact ofExcept site _

theorem untilReturn (run : Run α Value) : Settles (Run.untilReturn run) := by
  intro s value t h
  rw [untilReturn_apply, Option.map_eq_some_iff] at h
  obtain ⟨⟨result, u⟩, -, heq⟩ := h
  rcases result with (_ | _) | _ <;> cases heq

end Settles

end Run

namespace Grammar

open Run (Extends Settles)

/-- Where a call of the one kind ends, the same call of the other kind ends in the same way. -/
def CallsExtend (call call' : α → Value → List Value → Run α Value) : Prop :=
  ∀ site function arguments, Extends (call site function arguments) (call' site function arguments)

section Evaluation

variable {call call' : α → Value → List Value → Run α Value} {frame : Nat}

mutual

theorem Expr.extends_eval (hcall : CallsExtend call call') :
    ∀ expr : Expr α, Extends (expr.eval call frame) (expr.eval call' frame)
  | .int _ _ | .bool _ _ | .string _ _ | .name _ _ | .function _ _ _ => Extends.refl _
  | .array _ elements => (extends_evalAll hcall elements).bind fun _ => Extends.refl _
  | .map _ entries => (extends_evalEntries hcall entries []).bind fun _ => Extends.refl _
  | .unary _ _ operand => (operand.extends_eval hcall).bind fun _ => Extends.refl _
  | .binary _ _ lhs rhs =>
    (lhs.extends_eval hcall).bind fun _ => (rhs.extends_eval hcall).bind fun _ => Extends.refl _
  | .branch _ condition consequence alternative => by
    refine (condition.extends_eval hcall).bind fun value => ?_
    split
    · exact consequence.extends_eval hcall
    · exact extends_evalAlternative hcall alternative
  | .call label callee arguments =>
    (callee.extends_eval hcall).bind fun function =>
      (extends_evalAll hcall arguments).bind fun values => hcall label function values
  | .index _ collection position =>
    (collection.extends_eval hcall).bind fun _ =>
      (position.extends_eval hcall).bind fun _ => Extends.refl _

theorem extends_evalAll (hcall : CallsExtend call call') : ∀ values : List (Expr α),
    Extends (evalAll call frame values) (evalAll call' frame values)
  | [] => Extends.refl _
  | expr :: rest =>
    (expr.extends_eval hcall).bind fun _ =>
      (extends_evalAll hcall rest).bind fun _ => Extends.refl _

theorem extends_evalEntries (hcall : CallsExtend call call') : ∀ (entries : List (Expr α × Expr α))
    (known : List (Value.Key × Value)),
    Extends (evalEntries call frame known entries) (evalEntries call' frame known entries)
  | [], _ => Extends.refl _
  | (key, value) :: rest, _ =>
    (key.extends_eval hcall).bind fun _ => (Extends.refl _).bind fun _ =>
      (value.extends_eval hcall).bind fun _ => extends_evalEntries hcall rest _

theorem extends_evalAlternative (hcall : CallsExtend call call') : ∀ alternative : Option (Block α),
    Extends (evalAlternative call frame alternative) (evalAlternative call' frame alternative)
  | none => Extends.refl _
  | some block => block.extends_eval hcall

theorem Block.extends_eval (hcall : CallsExtend call call') : ∀ block : Block α,
    Extends (block.eval call frame) (block.eval call' frame)
  | .mk _ body => extends_evalStatements hcall body .null

theorem Stmt.extends_eval (hcall : CallsExtend call call') : ∀ stmt : Stmt α,
    Extends (stmt.eval call frame) (stmt.eval call' frame)
  | .bind _ _ value => (value.extends_eval hcall).bind fun _ => Extends.refl _
  | .leave _ none => Extends.refl _
  | .leave _ (some value) => (value.extends_eval hcall).bind fun _ => Extends.refl _
  | .expr _ value => value.extends_eval hcall
  | .block inner => inner.extends_eval hcall

theorem extends_evalStatements (hcall : CallsExtend call call') :
    ∀ (stmts : List (Stmt α)) (last : Value),
    Extends (evalStatements call frame last stmts) (evalStatements call' frame last stmts)
  | [], _ => Extends.refl _
  | stmt :: rest, _ =>
    (stmt.extends_eval hcall).bind fun value => extends_evalStatements hcall rest value

end

end Evaluation

/-- A call that ends under a limit ends in the same way under a higher one. -/
theorem extends_call : ∀ {limit limit' : Nat}, limit ≤ limit' →
    ∀ (site : α) (function : Value) (arguments : List Value),
      Extends (Run.call limit site function arguments) (Run.call limit' site function arguments)
  | _, _, _, site, .builtin function, arguments => by
    rw [Run.call, Run.call]
    exact Extends.refl _
  | limit, limit', hle, site, .function reference, arguments => by
    unfold Run.call
    refine Extends.get fun store => ?_
    split
    · exact Extends.refl _
    · next closure _ =>
      split
      · exact Extends.refl _
      · cases limit with
        | zero => exact Extends.endless _
        | succ limit =>
          cases limit' with
          | zero => exact absurd hle (Nat.not_succ_le_zero limit)
          | succ limit' =>
            refine (Extends.refl _).bind fun frame => (Extends.refl _).bind fun _ => ?_
            have hcall := extends_call (Nat.le_of_succ_le_succ hle)
            exact (closure.body.extends_eval hcall).untilReturn
  | _, _, _, site, .int _, _ | _, _, _, site, .bool _, _ | _, _, _, site, .string _, _
  | _, _, _, site, .array _, _ | _, _, _, site, .map _, _ | _, _, _, site, .null, _ => by
    rw [Run.call, Run.call]
    · exact Extends.refl _
    all_goals exact nofun

theorem settles_call (limit : Nat) (site : α) (function : Value) (arguments : List Value) :
    Settles (Run.call limit site function arguments) := by
  cases function with
  | builtin function =>
    rw [Run.call]
    exact Settles.builtin site function arguments
  | function reference =>
    unfold Run.call
    refine Settles.bind (fun _ _ _ => nofun) fun store => ?_
    split
    · exact Settles.endless
    · split
      · exact Settles.fail _ site
      · split
        · exact Settles.endless
        · exact Settles.bind (fun _ _ _ => nofun) fun frame =>
            (Settles.declareAll frame _).bind fun _ => Settles.untilReturn _
  | int | bool | string | array | map | null =>
    rw [Run.call]
    · exact Settles.fail _ site
    all_goals exact nofun

end Grammar

end Scriptlet
