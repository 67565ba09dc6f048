import Scriptlet.Proofs.Effect

/-! # What evaluation may change

Of the frames that are there when code is evaluated, only the one it is evaluated in changes, and
there only the names that the code itself binds, however deeply functions are called on the way. A
call changes none of them.
-/

namespace Scriptlet.Grammar

variable {α : Type}

mutual

/-- The names that `let` binds in a tree. A function literal binds those of its body elsewhere. -/
def Expr.targets : Expr α → List String
  | .int _ _ | .bool _ _ | .name _ _ | .string _ _ | .function _ _ _ => []
  | .array _ elements => targetsOfAll elements
  | .map _ entries => targetsOfEntries entries
  | .unary _ _ operand => operand.targets
  | .binary _ _ lhs rhs => lhs.targets ++ rhs.targets
  | .branch _ condition consequence alternative =>
    condition.targets ++ consequence.targets ++ targetsOfAlternative alternative
  | .call _ callee arguments => callee.targets ++ targetsOfAll arguments
  | .index _ collection position => collection.targets ++ position.targets

def targetsOfAll : List (Expr α) → List String
  | [] => []
  | expr :: rest => expr.targets ++ targetsOfAll rest

def targetsOfEntries : List (Expr α × Expr α) → List String
  | [] => []
  | (key, value) :: rest => key.targets ++ value.targets ++ targetsOfEntries rest

def targetsOfAlternative : Option (Block α) → List String
  | none => []
  | some block => block.targets

def Block.targets : Block α → List String
  | .mk _ body => targetsOfStatements body

def Stmt.targets : Stmt α → List String
  | .bind _ target value => value.targets ++ [target.name]
  | .leave _ none => []
  | .leave _ (some value) => value.targets
  | .expr _ value => value.targets
  | .block inner => inner.targets

def targetsOfStatements : List (Stmt α) → List String
  | [] => []
  | stmt :: rest => stmt.targets ++ targetsOfStatements rest

end

/-- Calls bind nothing but these names. -/
def CallsBind (binds : Nat → String → Prop) (call : α → Value → List Value → Run α Value) : Prop :=
  ∀ site function arguments, Effect binds (call site function arguments)

section Evaluation

variable {call : α → Value → List Value → Run α Value} {binds : Nat → String → Prop} {frame : Nat}

mutual

theorem Expr.effect (hcall : CallsBind binds call) :
    ∀ expr : Expr α, (∀ name ∈ expr.targets, binds frame name) →
    Effect binds (expr.eval call frame)
  | .int _ _, _ => Effect.pure _
  | .bool _ _, _ => Effect.pure _
  | .name label name, _ => Effect.name label frame name
  | .string _ _, _ => Effect.pure _
  | .array _ elements, h => (effect_evalAll hcall elements h).bind fun _ => Effect.pure _
  | .map _ entries, h => (effect_evalEntries hcall entries [] h).bind fun _ => Effect.pure _
  | .unary label op operand, h => (operand.effect hcall h).bind fun _ => Effect.ofExcept label _
  | .binary label op lhs rhs, h => by
    obtain ⟨hlhs, hrhs⟩ := List.forall_mem_append.mp h
    refine (lhs.effect hcall hlhs).bind fun _ => ?_
    exact (rhs.effect hcall hrhs).bind fun _ => Effect.ofExcept label _
  | .branch _ condition consequence alternative, h => by
    obtain ⟨h, halternative⟩ := List.forall_mem_append.mp h
    obtain ⟨hcondition, hconsequence⟩ := List.forall_mem_append.mp h
    refine (condition.effect hcall hcondition).bind fun value => ?_
    split
    · exact consequence.effect hcall hconsequence
    · exact effect_evalAlternative hcall alternative halternative
  | .function _ _ _, _ => Effect.close _
  | .call label callee arguments, h => by
    obtain ⟨hcallee, harguments⟩ := List.forall_mem_append.mp h
    refine (callee.effect hcall hcallee).bind fun function => ?_
    exact (effect_evalAll hcall arguments harguments).bind fun values => hcall label function values
  | .index label collection position, h => by
    obtain ⟨hcollection, hposition⟩ := List.forall_mem_append.mp h
    refine (collection.effect hcall hcollection).bind fun _ => ?_
    exact (position.effect hcall hposition).bind fun _ => Effect.ofExcept label _

theorem effect_evalAll (hcall : CallsBind binds call) : ∀ values : List (Expr α),
    (∀ name ∈ targetsOfAll values, binds frame name) →
    Effect binds (evalAll call frame values)
  | [], _ => Effect.pure _
  | expr :: rest, h => by
    obtain ⟨hexpr, hrest⟩ := List.forall_mem_append.mp h
    refine (expr.effect hcall hexpr).bind fun _ => ?_
    exact (effect_evalAll hcall rest hrest).bind fun _ => Effect.pure _

theorem effect_evalEntries (hcall : CallsBind binds call) : ∀ (entries : List (Expr α × Expr α))
    (known : List (Value.Key × Value)),
    (∀ name ∈ targetsOfEntries entries, binds frame name) →
    Effect binds (evalEntries call frame known entries)
  | [], _, _ => Effect.pure _
  | (key, value) :: rest, known, h => by
    obtain ⟨h, hrest⟩ := List.forall_mem_append.mp h
    obtain ⟨hkey, hvalue⟩ := List.forall_mem_append.mp h
    refine (key.effect hcall hkey).bind fun position => ?_
    refine (Effect.ofExcept key.label _).bind fun position => ?_
    exact (value.effect hcall hvalue).bind fun value => effect_evalEntries hcall rest _ hrest

theorem effect_evalAlternative (hcall : CallsBind binds call) : ∀ alternative : Option (Block α),
    (∀ name ∈ targetsOfAlternative alternative, binds frame name) →
    Effect binds (evalAlternative call frame alternative)
  | none, _ => Effect.pure _
  | some block, h => block.effect hcall h

theorem Block.effect (hcall : CallsBind binds call) :
    ∀ block : Block α, (∀ name ∈ block.targets, binds frame name) →
    Effect binds (block.eval call frame)
  | .mk _ body, h => effect_evalStatements hcall body .null h

theorem Stmt.effect (hcall : CallsBind binds call) :
    ∀ stmt : Stmt α, (∀ name ∈ stmt.targets, binds frame name) →
    Effect binds (stmt.eval call frame)
  | .bind _ target value, h => by
    obtain ⟨hvalue, htarget⟩ := List.forall_mem_append.mp h
    refine (value.effect hcall hvalue).bind fun result => ?_
    have hname : binds frame target.name := htarget target.name (List.mem_singleton_self _)
    exact (Effect.declare hname result).bind fun _ => Effect.pure _
  | .leave _ none, _ => Effect.throw _
  | .leave _ (some value), h => (value.effect hcall h).bind fun _ => Effect.throw _
  | .expr _ value, h => value.effect hcall h
  | .block inner, h => inner.effect hcall h

theorem effect_evalStatements (hcall : CallsBind binds call) :
    ∀ (stmts : List (Stmt α)) (last : Value),
    (∀ name ∈ targetsOfStatements stmts, binds frame name) →
    Effect binds (evalStatements call frame last stmts)
  | [], _, _ => Effect.pure _
  | stmt :: rest, last, h => by
    obtain ⟨hstmt, hrest⟩ := List.forall_mem_append.mp h
    exact (stmt.effect hcall hstmt).bind fun value => effect_evalStatements hcall rest value hrest

end

end Evaluation

/-- A call binds names only in frames that are opened on the way. -/
theorem effect_call : ∀ (limit : Nat) (site : α) (function : Value) (arguments : List Value),
    Effect (fun _ _ => False) (Run.call limit site function arguments)
  | _, site, .builtin builtin, arguments => by
    rw [Run.call]
    exact Effect.builtin site builtin arguments
  | limit, site, .function reference, arguments => by
    unfold Run.call
    refine Effect.get (fun store => ?_) fun _ _ => rfl
    split
    · exact Effect.endless
    · next closure _ =>
      split
      · exact Effect.throw _
      · cases limit with
        | zero => exact Effect.endless
        | succ limit =>
          -- The body binds what it likes in its own frame, and the calls within it bind nothing.
          refine Effect.scope closure.frame fun frame => ?_
          refine (Effect.declareAll (fun _ => rfl) _).bind fun _ => Effect.untilReturn ?_
          have hcall : CallsBind (fun id _ => id = frame) (Run.call (α := α) limit) :=
            fun site function arguments => (effect_call limit site function arguments).mono nofun
          exact closure.body.effect hcall fun _ _ => rfl
  | _, _, .int _, _ | _, _, .bool _, _ | _, _, .string _, _ | _, _, .array _, _ | _, _, .map _, _
  | _, _, .null, _ => by
    rw [Run.call]
    · exact Effect.throw _
    · exact nofun
    · exact nofun

/-- Evaluation binds names only in the frame it takes place in, and only the targets of the code. A
call binds none, and what was written before only stays in front of what is written. -/
theorem effect_of_evaluation (limit frame : Nat) :
    (∀ expr : Expr Token, Effect (fun id name => id = frame ∧ name ∈ expr.targets)
      (expr.eval (Run.call limit) frame)) ∧
    (∀ stmt : Stmt Token, Effect (fun id name => id = frame ∧ name ∈ stmt.targets)
      (stmt.eval (Run.call limit) frame)) ∧
    (∀ program : Program Token,
      Effect (fun id name => id = frame ∧ name ∈ targetsOfStatements program.statements)
        (program.run limit frame)) ∧
    ∀ (site : Token) (function : Value) (arguments : List Value),
      Effect (fun _ _ => False) (Run.call limit site function arguments) := by
  have hcall (names : List String) :
      CallsBind (fun id name => id = frame ∧ name ∈ names) (Run.call (α := Token) limit) :=
    fun site function arguments => (effect_call limit site function arguments).mono nofun
  refine ⟨fun expr => ?_, fun stmt => ?_, fun program => ?_, effect_call limit⟩
  · exact expr.effect (hcall _) fun _ h => ⟨rfl, h⟩
  · exact stmt.effect (hcall _) fun _ h => ⟨rfl, h⟩
  · obtain ⟨statements, errors⟩ := program
    cases errors with
    | nil => exact (effect_evalStatements (hcall _) statements .null fun _ h => ⟨rfl, h⟩).finish
    | cons first rest =>
      exact Effect.of_step (fun _ => rfl) Footprint.refl (fun _ _ => rfl) fun _ _ => rfl

end Scriptlet.Grammar
