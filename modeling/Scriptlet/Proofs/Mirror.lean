import Scriptlet.Proofs.Effect
import Scriptlet.Proofs.Relabel

/-! # Runs with other labels

Labels decide nothing in a run. With other labels it goes the same way, and differs only in the
labels of the closures that it makes and of the fault that it ends in.
-/

namespace Scriptlet

variable {α β γ δ : Type}

namespace Grammar

theorem Expr.label_relabel (f : α → β) (expr : Expr α) : (expr.relabel f).label = f expr.label := by
  cases expr <;> rfl

mutual

theorem Expr.render_relabel (f : α → β) : ∀ expr : Expr α, (expr.relabel f).render = expr.render
  | .int _ _ | .bool _ _ | .name _ _ | .string _ _ => rfl
  | .array _ elements => by
    rw [Expr.relabel, Expr.render, Expr.render, renderAll_relabel f elements]
  | .map _ entries => by
    rw [Expr.relabel, Expr.render, Expr.render, renderEntries_relabel f entries]
  | .unary _ _ operand => by rw [Expr.relabel, Expr.render, Expr.render, operand.render_relabel f]
  | .binary _ _ lhs rhs => by
    rw [Expr.relabel, Expr.render, Expr.render, lhs.render_relabel f, rhs.render_relabel f]
  | .branch _ condition consequence alternative => by
    rw [Expr.relabel, Expr.render, Expr.render, condition.render_relabel f,
      consequence.render_relabel f, renderAlternative_relabel f alternative]
  | .function _ parameters body => by
    rw [Expr.relabel, Expr.render, Expr.render, body.render_relabel f, List.map_map]
    rfl
  | .call _ callee arguments => by
    rw [Expr.relabel, Expr.render, Expr.render, callee.render_relabel f,
      renderAll_relabel f arguments]
  | .index _ collection position => by
    rw [Expr.relabel, Expr.render, Expr.render, collection.render_relabel f,
      position.render_relabel f]

theorem renderAll_relabel (f : α → β) : ∀ values : List (Expr α),
    renderAll (relabelAll f values) = renderAll values
  | [] => rfl
  | expr :: rest => by
    rw [relabelAll, renderAll, renderAll, expr.render_relabel f, renderAll_relabel f rest]

theorem renderEntries_relabel (f : α → β) : ∀ entries : List (Expr α × Expr α),
    renderEntries (relabelEntries f entries) = renderEntries entries
  | [] => rfl
  | (key, value) :: rest => by
    rw [relabelEntries, renderEntries, renderEntries, key.render_relabel f, value.render_relabel f,
      renderEntries_relabel f rest]

theorem renderAlternative_relabel (f : α → β) : ∀ alternative : Option (Block α),
    renderAlternative (relabelAlternative f alternative) = renderAlternative alternative
  | none => rfl
  | some block => by
    rw [relabelAlternative, renderAlternative, renderAlternative, block.render_relabel f]

theorem Block.render_relabel (f : α → β) : ∀ block : Block α,
    (block.relabel f).render = block.render
  | .mk _ [] => rfl
  | .mk _ (first :: rest) => by
    rw [Block.relabel, relabelStatements, Block.render, Block.render, first.render_relabel f,
      renderStatements_relabel f rest]

theorem Stmt.render_relabel (f : α → β) : ∀ stmt : Stmt α, (stmt.relabel f).render = stmt.render
  | .bind _ target value => by
    rw [Stmt.relabel, Stmt.render, Stmt.render, value.render_relabel f, Ident.relabel]
  | .leave _ none => rfl
  | .leave _ (some value) => by rw [Stmt.relabel, Stmt.render, Stmt.render, value.render_relabel f]
  | .expr _ value => by rw [Stmt.relabel, Stmt.render, Stmt.render, value.render_relabel f]
  | .block inner => by rw [Stmt.relabel, Stmt.render, Stmt.render, inner.render_relabel f]

theorem renderStatements_relabel (f : α → β) : ∀ stmts : List (Stmt α),
    renderStatements (relabelStatements f stmts) = renderStatements stmts
  | [] => rfl
  | stmt :: rest => by
    rw [relabelStatements, renderStatements, renderStatements, stmt.render_relabel f,
      renderStatements_relabel f rest]

end

end Grammar

/-! ### Stores and ends of runs -/

def Closure.relabel (f : α → β) (closure : Closure α) : Closure β :=
  ⟨closure.parameters.map (Grammar.Ident.relabel f), closure.body.relabel f, closure.frame⟩

theorem Closure.render_relabel (f : α → β) (closure : Closure α) :
    (closure.relabel f).render = closure.render := by
  rw [Closure.render, Closure.render, Closure.relabel, closure.body.render_relabel f, List.map_map]
  rfl

namespace Store

def relabel (f : α → β) (store : Store α) : Store β :=
  ⟨store.frames, store.closures.map (Closure.relabel f), store.output⟩

theorem lookup_relabel (f : α → β) (store : Store α) (id : Nat) (name : String) :
    (store.relabel f).lookup id name = store.lookup id name :=
  lookup_congr (show (store.relabel f).frames = store.frames from rfl) id name

theorem render_relabel (f : α → β) (store : Store α) (value : Value) :
    (store.relabel f).render value = store.render value := by
  have hfunction : (store.relabel f).functionText = store.functionText := by
    funext reference
    rw [functionText, functionText, relabel, Array.getElem?_map, Option.map_map]
    congr 2
    funext closure
    exact closure.render_relabel f
  rw [render, render, hfunction]

theorem close_relabel (f : α → β) (store : Store α) (closure : Closure α) :
    (store.relabel f).close (closure.relabel f)
      = ((store.close closure).1, (store.close closure).2.relabel f) := by
  simp [close, relabel]

end Store

def Interrupt.relabel (f : α → β) : Interrupt α → Interrupt β
  | .returned value => .returned value
  | .failed fault site => .failed fault (f site)

/-- The end of a run, with other labels. -/
def relabelEnd (f : α → β) (ending : Except (Interrupt α) γ × Store α) :
    Except (Interrupt β) γ × Store β :=
  (ending.1.mapError (Interrupt.relabel f), ending.2.relabel f)

/-- The second run goes from any store as the first one does, with other labels. -/
def Mirrors (f : α → β) (run : Run α γ) (run' : Run β γ) : Prop :=
  ∀ store, run' (store.relabel f) = (run store).map (relabelEnd f)

namespace Mirrors

variable {f : α → β}

theorem pure (value : γ) : Mirrors f (Pure.pure value) (Pure.pure value) :=
  fun _ => rfl

theorem throw (interrupt : Interrupt α) :
    Mirrors f (MonadExcept.throw interrupt : Run α γ)
      (MonadExcept.throw (interrupt.relabel f)) :=
  fun _ => rfl

theorem endless : Mirrors f (Run.endless : Run α γ) Run.endless :=
  fun _ => rfl

theorem bind {x : Run α γ} {x' : Run β γ} {g : γ → Run α δ} {g' : γ → Run β δ}
    (hx : Mirrors f x x') (hg : ∀ value, Mirrors f (g value) (g' value)) :
    Mirrors f (x >>= g) (x' >>= g') := by
  intro store
  rw [Run.bind_apply, Run.bind_apply, hx store]
  cases x store with
  | none => rfl
  | some ending =>
    obtain ⟨result, after⟩ := ending
    cases result with
    | ok value => exact hg value after
    | error interrupt => rfl

theorem ofExcept (site : α) (result : Except Fault γ) :
    Mirrors f (Run.ofExcept site result) (Run.ofExcept (f site) result) := by
  cases result with
  | ok value => exact pure value
  | error fault => exact throw (.failed fault site)

theorem get {g : Store α → Run α γ} {g' : Store β → Run β γ}
    (hg : ∀ store, Mirrors f (g store) (g' (store.relabel f))) :
    Mirrors f (MonadState.get >>= g) (MonadState.get >>= g') :=
  fun store => hg store store

theorem name (site : α) (frame : Nat) (name : String) :
    Mirrors f (Run.name site frame name) (Run.name (f site) frame name) := by
  refine get fun store => ?_
  rw [Store.lookup_relabel]
  split
  · exact pure _
  · split
    · exact pure _
    · exact throw (.failed _ site)

theorem close (closure : Closure α) :
    Mirrors f (Run.close closure) (Run.close (closure.relabel f)) := by
  intro store
  have hrun : ∀ {α : Type} (closure : Closure α) (store : Store α), Run.close closure store
      = some (.ok (.function (store.close closure).1), (store.close closure).2) := fun _ _ => rfl
  rw [hrun, hrun, Store.close_relabel]
  rfl

theorem declare (frame : Nat) (name : String) (value : Value) :
    Mirrors f (Run.declare frame name value) (Run.declare frame name value) :=
  fun _ => rfl

theorem declareAll (frame : Nat) : ∀ (parameters : List (Grammar.Ident α)) (arguments : List Value),
    Mirrors f (Run.declareAll frame (parameters.zip arguments))
      (Run.declareAll frame ((parameters.map (Grammar.Ident.relabel f)).zip arguments))
  | [], _ => pure ()
  | _ :: _, [] => pure ()
  | parameter :: parameters, argument :: arguments =>
    (declare frame parameter.name argument).bind fun _ => declareAll frame parameters arguments

theorem openFrame (parent : Nat) :
    Mirrors f (Run.openFrame parent) (Run.openFrame parent) :=
  fun _ => rfl

theorem builtin (site : α) (function : Value.Builtin) (arguments : List Value) :
    Mirrors f (Run.builtin site function arguments) (Run.builtin (f site) function arguments) := by
  unfold Run.builtin
  split
  · refine bind (fun store => ?_) fun _ => ofExcept site _
    have hrender : (store.relabel f).render = store.render := funext (store.render_relabel f)
    change some (_, (store.relabel f).write (String.join
      (arguments.map ((store.relabel f).render · ++ "\n")))) = _
    rw [hrender]
    rfl
  · exact ofExcept site _

theorem untilReturn {run : Run α Value} {run' : Run β Value} (h : Mirrors f run run') :
    Mirrors f (Run.untilReturn run) (Run.untilReturn run') := by
  intro store
  rw [Run.untilReturn_apply, Run.untilReturn_apply, h store, Option.map_map, Option.map_map]
  congr 1
  funext ⟨result, after⟩
  rcases result with (_ | _) | _ <;> rfl

end Mirrors

namespace Grammar

variable {f : α → β}

/-- Calls at relabelled sites go the same way. -/
def CallsMirror (f : α → β) (call : α → Value → List Value → Run α Value)
    (call' : β → Value → List Value → Run β Value) : Prop :=
  ∀ site function arguments,
    Mirrors f (call site function arguments) (call' (f site) function arguments)

section Evaluation

variable {call : α → Value → List Value → Run α Value}
  {call' : β → Value → List Value → Run β Value}

mutual

theorem Expr.mirrors (hcall : CallsMirror f call call') (frame : Nat) : ∀ expr : Expr α,
    Mirrors f (expr.eval call frame) ((expr.relabel f).eval call' frame)
  | .int _ _ | .bool _ _ | .string _ _ => Mirrors.pure _
  | .name label name => Mirrors.name label frame name
  | .array _ elements => (mirrors_evalAll hcall frame elements).bind fun _ => Mirrors.pure _
  | .map _ entries => (mirrors_evalEntries hcall frame entries []).bind fun _ => Mirrors.pure _
  | .unary label _ operand => (operand.mirrors hcall frame).bind fun _ => Mirrors.ofExcept label _
  | .binary label _ lhs rhs =>
    (lhs.mirrors hcall frame).bind fun _ =>
      (rhs.mirrors hcall frame).bind fun _ => Mirrors.ofExcept label _
  | .branch _ condition consequence alternative => by
    refine (condition.mirrors hcall frame).bind fun value => ?_
    split
    · exact consequence.mirrors hcall frame
    · exact mirrors_evalAlternative hcall frame alternative
  | .function _ parameters body => Mirrors.close ⟨parameters, body, frame⟩
  | .call label callee arguments =>
    (callee.mirrors hcall frame).bind fun function =>
      (mirrors_evalAll hcall frame arguments).bind fun values => hcall label function values
  | .index label collection position =>
    (collection.mirrors hcall frame).bind fun _ =>
      (position.mirrors hcall frame).bind fun _ => Mirrors.ofExcept label _

theorem mirrors_evalAll (hcall : CallsMirror f call call') (frame : Nat) : ∀ values : List (Expr α),
    Mirrors f (evalAll call frame values) (evalAll call' frame (relabelAll f values))
  | [] => Mirrors.pure _
  | expr :: rest =>
    (expr.mirrors hcall frame).bind fun _ =>
      (mirrors_evalAll hcall frame rest).bind fun _ => Mirrors.pure _

theorem mirrors_evalEntries (hcall : CallsMirror f call call') (frame : Nat) :
    ∀ (entries : List (Expr α × Expr α))
    (known : List (Value.Key × Value)),
    Mirrors f (evalEntries call frame known entries)
      (evalEntries call' frame known (relabelEntries f entries))
  | [], _ => Mirrors.pure _
  | (key, value) :: rest, known => by
    refine (key.mirrors hcall frame).bind fun _ => ?_
    rw [key.label_relabel f]
    exact (Mirrors.ofExcept key.label _).bind fun _ => (value.mirrors hcall frame).bind fun _ =>
      mirrors_evalEntries hcall frame rest _

theorem mirrors_evalAlternative (hcall : CallsMirror f call call') (frame : Nat) :
    ∀ alternative : Option (Block α),
    Mirrors f (evalAlternative call frame alternative)
      (evalAlternative call' frame (relabelAlternative f alternative))
  | none => Mirrors.pure _
  | some block => block.mirrors hcall frame

theorem Block.mirrors (hcall : CallsMirror f call call') (frame : Nat) : ∀ block : Block α,
    Mirrors f (block.eval call frame) ((block.relabel f).eval call' frame)
  | .mk _ body => mirrors_evalStatements hcall frame body .null

theorem Stmt.mirrors (hcall : CallsMirror f call call') (frame : Nat) : ∀ stmt : Stmt α,
    Mirrors f (stmt.eval call frame) ((stmt.relabel f).eval call' frame)
  | .bind _ target value =>
    (value.mirrors hcall frame).bind fun _ =>
      (Mirrors.declare frame target.name _).bind fun _ => Mirrors.pure _
  | .leave _ none => Mirrors.throw (.returned .null)
  | .leave _ (some value) => (value.mirrors hcall frame).bind fun _ => Mirrors.throw (.returned _)
  | .expr _ value => value.mirrors hcall frame
  | .block inner => inner.mirrors hcall frame

theorem mirrors_evalStatements (hcall : CallsMirror f call call') (frame : Nat) :
    ∀ (stmts : List (Stmt α)) (last : Value),
    Mirrors f (evalStatements call frame last stmts)
      (evalStatements call' frame last (relabelStatements f stmts))
  | [], _ => Mirrors.pure _
  | stmt :: rest, _ =>
    (stmt.mirrors hcall frame).bind fun _ => mirrors_evalStatements hcall frame rest _

end

end Evaluation

theorem mirrors_call (f : α → β) : ∀ (limit : Nat) (site : α) (function : Value)
    (arguments : List Value),
    Mirrors f (Run.call limit site function arguments) (Run.call limit (f site) function arguments)
  | _, site, .builtin function, arguments => by
    rw [Run.call, Run.call]
    exact Mirrors.builtin site function arguments
  | limit, site, .function reference, arguments => by
    unfold Run.call
    refine Mirrors.get fun store => ?_
    have hclosure : (store.relabel f).closures[reference]?
        = store.closures[reference]?.map (Closure.relabel f) := Array.getElem?_map
    rw [hclosure]
    cases store.closures[reference]? with
    | none => exact Mirrors.endless
    | some closure =>
      have hlength : (closure.relabel f).parameters.length = closure.parameters.length :=
        List.length_map _
      simp only [Option.map_some, hlength]
      split
      · exact Mirrors.throw (.failed _ site)
      · cases limit with
        | zero => exact Mirrors.endless
        | succ limit =>
          refine (Mirrors.openFrame closure.frame).bind fun frame => ?_
          refine (Mirrors.declareAll frame closure.parameters arguments).bind fun _ => ?_
          exact (closure.body.mirrors (mirrors_call f limit) frame).untilReturn
  | _, site, .int _, _ | _, site, .bool _, _ | _, site, .string _, _ | _, site, .array _, _
  | _, site, .map _, _ | _, site, .null, _ => by
    rw [Run.call, Run.call]
    · exact Mirrors.throw (.failed _ site)
    all_goals exact nofun

end Grammar

end Scriptlet
