import Scriptlet.Proofs.Effect
import Scriptlet.Proofs.Nodes

/-! # Code that is not reached

An interrupt surfaces at one node of the code and passes through everything around it. What stands
behind that node is not evaluated, and neither is a branch that was not taken, so that other code in
these places makes no difference.
-/

namespace Scriptlet

variable {α β γ : Type}

namespace Run

/-- If the run ends, its value or its interrupt and the store behind it have these properties. -/
def EndsIn (run : Run α β) (s : Store α) (Q : β → Store α → Prop)
    (F : Interrupt α → Store α → Prop) : Prop :=
  ∀ result t, run s = some (result, t) →
    match result with
    | .ok value => Q value t
    | .error interrupt => F interrupt t

namespace EndsIn

variable {s t : Store α} {Q : β → Store α → Prop} {F : Interrupt α → Store α → Prop}

theorem of_eq {run : Run α β} (hok : ∀ value t, run s = some (.ok value, t) → Q value t)
    (herror : ∀ interrupt t, run s = some (.error interrupt, t) → F interrupt t) :
    run.EndsIn s Q F := by
  intro result t h
  cases result with
  | ok value => exact hok value t h
  | error interrupt => exact herror interrupt t h

theorem imp {run : Run α β} {Q' : β → Store α → Prop} {F' : Interrupt α → Store α → Prop}
    (h : run.EndsIn s Q' F') (hQ : ∀ value t, Q' value t → Q value t)
    (hF : ∀ interrupt t, F' interrupt t → F interrupt t) : run.EndsIn s Q F :=
  of_eq (fun value t hrun => hQ value t (h _ t hrun)) fun interrupt t hrun =>
    hF interrupt t (h _ t hrun)

theorem pure {value : β} (h : Q value s) : EndsIn (Pure.pure value) s Q F := by
  intro result t hrun
  cases hrun
  exact h

theorem throw {interrupt : Interrupt α} (h : F interrupt s) :
    EndsIn (MonadExcept.throw interrupt : Run α β) s Q F := by
  intro result t hrun
  cases hrun
  exact h

theorem ofExcept {site : α} {outcome : Except Fault β}
    (hok : ∀ value, outcome = .ok value → Q value s)
    (herror : ∀ fault, outcome = .error fault → F (.failed fault site) s) :
    (Run.ofExcept site outcome).EndsIn s Q F := by
  cases outcome with
  | ok value => exact pure (hok value rfl)
  | error fault => exact throw (herror fault rfl)

theorem ofExcept_bind {site : α} {outcome : Except Fault γ} {f : γ → Run α β}
    (hok : ∀ value, outcome = .ok value → (f value).EndsIn s Q F)
    (herror : ∀ fault, outcome = .error fault → F (.failed fault site) s) :
    (Run.ofExcept site outcome >>= f).EndsIn s Q F := by
  intro result t hrun
  cases outcome with
  | ok value =>
    rw [bind_of_ok (ofExcept_ok site value s)] at hrun
    exact hok value rfl result t hrun
  | error fault =>
    cases hrun
    exact herror fault rfl

/-- A run goes on from a value, and what interrupts its first part interrupts all of it. -/
theorem bind {x : Run α γ} {f : γ → Run α β} {Q' : γ → Store α → Prop}
    {F' : Interrupt α → Store α → Prop} (hx : x.EndsIn s Q' F')
    (hf : ∀ value t, Q' value t → (f value).EndsIn t Q F)
    (hF : ∀ interrupt t, F' interrupt t → F interrupt t) : (x >>= f).EndsIn s Q F := by
  intro result u h
  rw [bind_apply, Option.bind_eq_some_iff] at h
  obtain ⟨⟨first, t⟩, hfirst, hrest⟩ := h
  cases first with
  | ok value => exact hf value t (hx _ t hfirst) result u hrest
  | error interrupt =>
    cases hrest
    exact hF interrupt _ (hx _ _ hfirst)

end EndsIn

end Run

namespace Grammar

variable (call : α → Value → List Value → Run α Value) (frame : Nat)

/-! ### Evaluation up to a node -/

mutual

/-- Evaluated from the first store, the tree has the value and leaves the second store. The other
tree differs from it only in branches that are not taken. -/
inductive Expr.Passes : Expr α → Expr α → Store α → Value → Store α → Prop
  | int (label n s) : Expr.Passes (.int label n) (.int label n) s (.int n) s
  | bool (label b s) : Expr.Passes (.bool label b) (.bool label b) s (.bool b) s
  | string (label text s) : Expr.Passes (.string label text) (.string label text) s (.string text) s
  | name {label name s v t} : Run.name label frame name s = some (.ok v, t) →
      Expr.Passes (.name label name) (.name label name) s v t
  | function {label parameters body s v t} :
      Run.close ⟨parameters, body, frame⟩ s = some (.ok v, t) →
      Expr.Passes (.function label parameters body) (.function label parameters body) s v t
  | array {label elements elements' s vs t} : PassesAll elements elements' s vs t →
      Expr.Passes (.array label elements) (.array label elements') s (.array vs) t
  | map {label entries entries' s pairs t} : PassesEntries [] entries entries' s pairs t →
      Expr.Passes (.map label entries) (.map label entries') s (.map pairs) t
  | unary {label op operand operand' s v w t} : Expr.Passes operand operand' s v t →
      v.unary op = .ok w → Expr.Passes (.unary label op operand) (.unary label op operand') s w t
  | binary {label op lhs lhs' rhs rhs' s v t w u x} : Expr.Passes lhs lhs' s v t →
      Expr.Passes rhs rhs' t w u → Value.binary op v w = .ok x →
      Expr.Passes (.binary label op lhs rhs) (.binary label op lhs' rhs') s x u
  | consequence {label condition condition' consequence consequence' alternative alternative' s v t
      w u} : Expr.Passes condition condition' s v t → v.isTruthy = true →
      Block.Passes consequence consequence' t w u →
      Expr.Passes (.branch label condition consequence alternative)
        (.branch label condition' consequence' alternative') s w u
  | alternative {label condition condition' consequence consequence' alternative alternative' s v t
      w u} : Expr.Passes condition condition' s v t → v.isTruthy = false →
      Block.Passes alternative alternative' t w u →
      Expr.Passes (.branch label condition consequence (some alternative))
        (.branch label condition' consequence' (some alternative')) s w u
  | noAlternative {label condition condition' consequence consequence' s v t} :
      Expr.Passes condition condition' s v t → v.isTruthy = false →
      Expr.Passes (.branch label condition consequence none)
        (.branch label condition' consequence' none) s .null t
  | call {label callee callee' arguments arguments' s v t vs u w x} :
      Expr.Passes callee callee' s v t → PassesAll arguments arguments' t vs u →
      call label v vs u = some (.ok w, x) →
      Expr.Passes (.call label callee arguments) (.call label callee' arguments') s w x
  | index {label collection collection' position position' s v t w u x} :
      Expr.Passes collection collection' s v t → Expr.Passes position position' t w u →
      v.index w = .ok x →
      Expr.Passes (.index label collection position) (.index label collection' position') s x u

inductive PassesAll : List (Expr α) → List (Expr α) → Store α → List Value → Store α → Prop
  | nil (s) : PassesAll [] [] s [] s
  | cons {first first' rest rest' s v t vs u} : Expr.Passes first first' s v t →
      PassesAll rest rest' t vs u → PassesAll (first :: rest) (first' :: rest') s (v :: vs) u

inductive PassesEntries : List (Value.Key × Value) → List (Expr α × Expr α) →
    List (Expr α × Expr α) → Store α → List (Value.Key × Value) → Store α → Prop
  | nil (known s) : PassesEntries known [] [] s known s
  | cons {known key key' value value' rest rest' s v t position w u pairs x} :
      Expr.Passes key key' s v t → v.toKey = .ok position → Expr.Passes value value' t w u →
      PassesEntries (Entries.insert position w known) rest rest' u pairs x →
      PassesEntries known ((key, value) :: rest) ((key', value') :: rest') s pairs x

inductive Block.Passes : Block α → Block α → Store α → Value → Store α → Prop
  | mk {label body body' s v t} : PassesStatements .null body body' s v t →
      Block.Passes (.mk label body) (.mk label body') s v t

inductive Stmt.Passes : Stmt α → Stmt α → Store α → Value → Store α → Prop
  | bind {label target value value' s v t} : Expr.Passes value value' s v t →
      Stmt.Passes (.bind label target value) (.bind label target value') s v
        (t.declare frame target.name v)
  | expr {label value value' s v t} : Expr.Passes value value' s v t →
      Stmt.Passes (.expr label value) (.expr label value') s v t
  | block {inner inner' s v t} : Block.Passes inner inner' s v t →
      Stmt.Passes (.block inner) (.block inner') s v t

inductive PassesStatements : Value → List (Stmt α) → List (Stmt α) → Store α → Value → Store α →
    Prop
  | nil (last s) : PassesStatements last [] [] s last s
  | cons {last first first' rest rest' s v t w u} : Stmt.Passes first first' s v t →
      PassesStatements v rest rest' t w u →
      PassesStatements last (first :: rest) (first' :: rest') s w u

end

mutual

/-- Evaluated from the first store, the tree is interrupted at the node, and the second store is the
one that the interrupt finds there. The other tree differs from it only behind the node, and in
branches that are not taken. -/
inductive Expr.Stops : Expr α → Expr α → Store α → Node α → Interrupt α → Store α → Prop
  | name {label name s i t} : Run.name label frame name s = some (.error i, t) →
      Expr.Stops (.name label name) (.name label name) s (.expr (.name label name)) i t
  | array {label elements elements' s n i t} : StopsAll elements elements' s n i t →
      Expr.Stops (.array label elements) (.array label elements') s n i t
  | map {label entries entries' s n i t} : StopsEntries [] entries entries' s n i t →
      Expr.Stops (.map label entries) (.map label entries') s n i t
  | operand {label op operand operand' s n i t} : Expr.Stops operand operand' s n i t →
      Expr.Stops (.unary label op operand) (.unary label op operand') s n i t
  | unary {label op operand operand' s v fault t} : Expr.Passes call frame operand operand' s v t →
      v.unary op = .error fault →
      Expr.Stops (.unary label op operand) (.unary label op operand') s
        (.expr (.unary label op operand)) (.failed fault label) t
  | lhs {label op lhs lhs' rhs rhs' s n i t} : Expr.Stops lhs lhs' s n i t →
      Expr.Stops (.binary label op lhs rhs) (.binary label op lhs' rhs') s n i t
  | rhs {label op lhs lhs' rhs rhs' s v t n i u} : Expr.Passes call frame lhs lhs' s v t →
      Expr.Stops rhs rhs' t n i u →
      Expr.Stops (.binary label op lhs rhs) (.binary label op lhs' rhs') s n i u
  | binary {label op lhs lhs' rhs rhs' s v t w u fault} : Expr.Passes call frame lhs lhs' s v t →
      Expr.Passes call frame rhs rhs' t w u → Value.binary op v w = .error fault →
      Expr.Stops (.binary label op lhs rhs) (.binary label op lhs' rhs') s
        (.expr (.binary label op lhs rhs)) (.failed fault label) u
  | condition {label condition condition' consequence consequence' alternative alternative' s n i
      t} : Expr.Stops condition condition' s n i t →
      Expr.Stops (.branch label condition consequence alternative)
        (.branch label condition' consequence' alternative') s n i t
  | consequence {label condition condition' consequence consequence' alternative alternative' s v t
      n i u} : Expr.Passes call frame condition condition' s v t → v.isTruthy = true →
      Block.Stops consequence consequence' t n i u →
      Expr.Stops (.branch label condition consequence alternative)
        (.branch label condition' consequence' alternative') s n i u
  | alternative {label condition condition' consequence consequence' alternative alternative' s v t
      n i u} : Expr.Passes call frame condition condition' s v t → v.isTruthy = false →
      Block.Stops alternative alternative' t n i u →
      Expr.Stops (.branch label condition consequence (some alternative))
        (.branch label condition' consequence' (some alternative')) s n i u
  | callee {label callee callee' arguments arguments' s n i t} : Expr.Stops callee callee' s n i t →
      Expr.Stops (.call label callee arguments) (.call label callee' arguments') s n i t
  | arguments {label callee callee' arguments arguments' s v t n i u} :
      Expr.Passes call frame callee callee' s v t → StopsAll arguments arguments' t n i u →
      Expr.Stops (.call label callee arguments) (.call label callee' arguments') s n i u
  | call {label callee callee' arguments arguments' s v t vs u i x} :
      Expr.Passes call frame callee callee' s v t →
      PassesAll call frame arguments arguments' t vs u →
      call label v vs u = some (.error i, x) →
      Expr.Stops (.call label callee arguments) (.call label callee' arguments') s
        (.expr (.call label callee arguments)) i x
  | collection {label collection collection' position position' s n i t} :
      Expr.Stops collection collection' s n i t →
      Expr.Stops (.index label collection position) (.index label collection' position') s n i t
  | position {label collection collection' position position' s v t n i u} :
      Expr.Passes call frame collection collection' s v t → Expr.Stops position position' t n i u →
      Expr.Stops (.index label collection position) (.index label collection' position') s n i u
  | index {label collection collection' position position' s v t w u fault} :
      Expr.Passes call frame collection collection' s v t →
      Expr.Passes call frame position position' t w u → v.index w = .error fault →
      Expr.Stops (.index label collection position) (.index label collection' position') s
        (.expr (.index label collection position)) (.failed fault label) u

inductive StopsAll : List (Expr α) → List (Expr α) → Store α → Node α → Interrupt α → Store α → Prop
  | head {first first' rest rest' s n i t} : Expr.Stops first first' s n i t →
      StopsAll (first :: rest) (first' :: rest') s n i t
  | tail {first first' rest rest' s v t n i u} : Expr.Passes call frame first first' s v t →
      StopsAll rest rest' t n i u → StopsAll (first :: rest) (first' :: rest') s n i u

inductive StopsEntries : List (Value.Key × Value) → List (Expr α × Expr α) →
    List (Expr α × Expr α) → Store α → Node α → Interrupt α → Store α → Prop
  | key {known key key' value value' rest rest' s n i t} : Expr.Stops key key' s n i t →
      StopsEntries known ((key, value) :: rest) ((key', value') :: rest') s n i t
  | noKey {known key key' value value' rest rest' s v t fault} :
      Expr.Passes call frame key key' s v t → v.toKey = .error fault →
      StopsEntries known ((key, value) :: rest) ((key', value') :: rest') s
        (.expr key) (.failed fault key.label) t
  | value {known key key' value value' rest rest' s v t position n i u} :
      Expr.Passes call frame key key' s v t → v.toKey = .ok position →
      Expr.Stops value value' t n i u →
      StopsEntries known ((key, value) :: rest) ((key', value') :: rest') s n i u
  | tail {known key key' value value' rest rest' s v t position w u n i x} :
      Expr.Passes call frame key key' s v t → v.toKey = .ok position →
      Expr.Passes call frame value value' t w u →
      StopsEntries (Entries.insert position w known) rest rest' u n i x →
      StopsEntries known ((key, value) :: rest) ((key', value') :: rest') s n i x

inductive Block.Stops : Block α → Block α → Store α → Node α → Interrupt α → Store α → Prop
  | mk {label body body' s n i t} : StopsStatements body body' s n i t →
      Block.Stops (.mk label body) (.mk label body') s n i t

inductive Stmt.Stops : Stmt α → Stmt α → Store α → Node α → Interrupt α → Store α → Prop
  | bind {label target value value' s n i t} : Expr.Stops value value' s n i t →
      Stmt.Stops (.bind label target value) (.bind label target value') s n i t
  | leave (label s) :
      Stmt.Stops (.leave label none) (.leave label none) s (.stmt (.leave label none))
        (.returned .null) s
  | leaving {label value value' s n i t} : Expr.Stops value value' s n i t →
      Stmt.Stops (.leave label (some value)) (.leave label (some value')) s n i t
  | leaveWith {label value value' s v t} : Expr.Passes call frame value value' s v t →
      Stmt.Stops (.leave label (some value)) (.leave label (some value')) s
        (.stmt (.leave label (some value))) (.returned v) t
  | expr {label value value' s n i t} : Expr.Stops value value' s n i t →
      Stmt.Stops (.expr label value) (.expr label value') s n i t
  | block {inner inner' s n i t} : Block.Stops inner inner' s n i t →
      Stmt.Stops (.block inner) (.block inner') s n i t

inductive StopsStatements : List (Stmt α) → List (Stmt α) → Store α → Node α → Interrupt α →
    Store α → Prop
  | head {first first' rest rest' s n i t} : Stmt.Stops first first' s n i t →
      StopsStatements (first :: rest) (first' :: rest') s n i t
  | tail {first first' rest rest' s v t n i u} : Stmt.Passes call frame first first' s v t →
      StopsStatements rest rest' t n i u →
      StopsStatements (first :: rest) (first' :: rest') s n i u

end

/-! ### The other tree -/

variable {call : α → Value → List Value → Run α Value} {frame : Nat}

theorem Expr.Passes.label_eq {expr expr' : Expr α} {s t : Store α} {v : Value}
    (h : expr.Passes call frame expr' s v t) : expr'.label = expr.label := by
  cases h <;> rfl

mutual

theorem Expr.Passes.eval : ∀ {expr expr' : Expr α} {s t : Store α} {v : Value},
    expr.Passes call frame expr' s v t → expr'.eval call frame s = some (.ok v, t)
  | _, _, _, _, _, .int _ _ _ | _, _, _, _, _, .bool _ _ _ | _, _, _, _, _, .string _ _ _ => rfl
  | _, _, _, _, _, .name h => h
  | _, _, _, _, _, .function h => h
  | _, _, _, _, _, .array h => by
    rw [Expr.eval, Run.bind_of_ok h.eval]
    rfl
  | _, _, _, _, _, .map h => by
    rw [Expr.eval, Run.bind_of_ok h.eval]
    rfl
  | _, _, _, _, _, .unary h hop => by
    rw [Expr.eval, Run.bind_of_ok h.eval, hop]
    rfl
  | _, _, _, _, _, .binary hlhs hrhs hop => by
    rw [Expr.eval, Run.bind_of_ok hlhs.eval, Run.bind_of_ok hrhs.eval, hop]
    rfl
  | _, _, _, _, _, .consequence hcondition htruthy hblock => by
    rw [Expr.eval, Run.bind_of_ok hcondition.eval, if_pos htruthy, hblock.eval]
  | _, _, _, _, _, .alternative hcondition htruthy hblock => by
    rw [Expr.eval, Run.bind_of_ok hcondition.eval, htruthy]
    exact hblock.eval
  | _, _, _, _, _, .noAlternative hcondition htruthy => by
    rw [Expr.eval, Run.bind_of_ok hcondition.eval, htruthy]
    rfl
  | _, _, _, _, _, .call hcallee harguments hcall => by
    rw [Expr.eval, Run.bind_of_ok hcallee.eval, Run.bind_of_ok harguments.eval, hcall]
  | _, _, _, _, _, .index hcollection hposition hop => by
    rw [Expr.eval, Run.bind_of_ok hcollection.eval, Run.bind_of_ok hposition.eval, hop]
    rfl

theorem PassesAll.eval : ∀ {values values' : List (Expr α)} {s t : Store α} {vs : List Value},
    PassesAll call frame values values' s vs t → evalAll call frame values' s = some (.ok vs, t)
  | _, _, _, _, _, .nil _ => rfl
  | _, _, _, _, _, .cons hfirst hrest => by
    rw [evalAll, Run.bind_of_ok hfirst.eval, Run.bind_of_ok hrest.eval]
    rfl

theorem PassesEntries.eval : ∀ {known pairs : List (Value.Key × Value)}
    {entries entries' : List (Expr α × Expr α)} {s t : Store α},
    PassesEntries call frame known entries entries' s pairs t →
      evalEntries call frame known entries' s = some (.ok pairs, t)
  | _, _, _, _, _, _, .nil _ _ => rfl
  | _, _, _, _, _, _, .cons hkey hposition hvalue hrest => by
    rw [evalEntries, Run.bind_of_ok hkey.eval, hposition]
    rw [Run.bind_of_ok (Run.ofExcept_ok _ _ _), Run.bind_of_ok hvalue.eval, hrest.eval]

theorem Block.Passes.eval : ∀ {block block' : Block α} {s t : Store α} {v : Value},
    block.Passes call frame block' s v t → block'.eval call frame s = some (.ok v, t)
  | _, _, _, _, _, .mk h => h.eval

theorem Stmt.Passes.eval : ∀ {stmt stmt' : Stmt α} {s t : Store α} {v : Value},
    stmt.Passes call frame stmt' s v t → stmt'.eval call frame s = some (.ok v, t)
  | _, _, _, _, _, .bind h => by
    rw [Stmt.eval, Run.bind_of_ok h.eval]
    rfl
  | _, _, _, _, _, .expr h => h.eval
  | _, _, _, _, _, .block h => h.eval

theorem PassesStatements.eval : ∀ {last v : Value} {stmts stmts' : List (Stmt α)} {s t : Store α},
    PassesStatements call frame last stmts stmts' s v t →
      evalStatements call frame last stmts' s = some (.ok v, t)
  | _, _, _, _, _, _, .nil _ _ => rfl
  | _, _, _, _, _, _, .cons hfirst hrest => by
    rw [evalStatements, Run.bind_of_ok hfirst.eval, hrest.eval]

end

mutual

theorem Expr.Stops.eval : ∀ {expr expr' : Expr α} {s t : Store α} {n : Node α} {i : Interrupt α},
    expr.Stops call frame expr' s n i t → expr'.eval call frame s = some (.error i, t)
  | _, _, _, _, _, _, .name h => h
  | _, _, _, _, _, _, .array h | _, _, _, _, _, _, .map h => by
    rw [Expr.eval, Run.bind_of_error h.eval]
  | _, _, _, _, _, _, .operand h | _, _, _, _, _, _, .lhs h | _, _, _, _, _, _, .condition h
  | _, _, _, _, _, _, .callee h | _, _, _, _, _, _, .collection h => by
    rw [Expr.eval, Run.bind_of_error h.eval]
  | _, _, _, _, _, _, .unary h hop => by
    rw [Expr.eval, Run.bind_of_ok h.eval, hop]
    rfl
  | _, _, _, _, _, _, .rhs hlhs h | _, _, _, _, _, _, .arguments hlhs h
  | _, _, _, _, _, _, .position hlhs h => by
    rw [Expr.eval, Run.bind_of_ok hlhs.eval, Run.bind_of_error h.eval]
  | _, _, _, _, _, _, .binary hlhs hrhs hop | _, _, _, _, _, _, .index hlhs hrhs hop => by
    rw [Expr.eval, Run.bind_of_ok hlhs.eval, Run.bind_of_ok hrhs.eval, hop]
    rfl
  | _, _, _, _, _, _, .consequence hcondition htruthy h => by
    rw [Expr.eval, Run.bind_of_ok hcondition.eval, if_pos htruthy, h.eval]
  | _, _, _, _, _, _, .alternative hcondition htruthy h => by
    rw [Expr.eval, Run.bind_of_ok hcondition.eval, htruthy]
    exact h.eval
  | _, _, _, _, _, _, .call hcallee harguments hcall => by
    rw [Expr.eval, Run.bind_of_ok hcallee.eval, Run.bind_of_ok harguments.eval, hcall]

theorem StopsAll.eval : ∀ {values values' : List (Expr α)} {s t : Store α} {n : Node α}
    {i : Interrupt α}, StopsAll call frame values values' s n i t →
      evalAll call frame values' s = some (.error i, t)
  | _, _, _, _, _, _, .head h => by rw [evalAll, Run.bind_of_error h.eval]
  | _, _, _, _, _, _, .tail hfirst h => by
    rw [evalAll, Run.bind_of_ok hfirst.eval, Run.bind_of_error h.eval]

theorem StopsEntries.eval : ∀ {known : List (Value.Key × Value)}
    {entries entries' : List (Expr α × Expr α)} {s t : Store α} {n : Node α} {i : Interrupt α},
    StopsEntries call frame known entries entries' s n i t →
      evalEntries call frame known entries' s = some (.error i, t)
  | _, _, _, _, _, _, _, .key h => by rw [evalEntries, Run.bind_of_error h.eval]
  | _, _, _, _, _, _, _, .noKey hkey hposition => by
    rw [evalEntries, Run.bind_of_ok hkey.eval, hposition, hkey.label_eq]
    rfl
  | _, _, _, _, _, _, _, .value hkey hposition h => by
    rw [evalEntries, Run.bind_of_ok hkey.eval, hposition]
    rw [Run.bind_of_ok (Run.ofExcept_ok _ _ _), Run.bind_of_error h.eval]
  | _, _, _, _, _, _, _, .tail hkey hposition hvalue h => by
    rw [evalEntries, Run.bind_of_ok hkey.eval, hposition]
    rw [Run.bind_of_ok (Run.ofExcept_ok _ _ _), Run.bind_of_ok hvalue.eval, h.eval]

theorem Block.Stops.eval : ∀ {block block' : Block α} {s t : Store α} {n : Node α}
    {i : Interrupt α}, block.Stops call frame block' s n i t →
      block'.eval call frame s = some (.error i, t)
  | _, _, _, _, _, _, .mk h => h.eval .null

theorem Stmt.Stops.eval : ∀ {stmt stmt' : Stmt α} {s t : Store α} {n : Node α} {i : Interrupt α},
    stmt.Stops call frame stmt' s n i t → stmt'.eval call frame s = some (.error i, t)
  | _, _, _, _, _, _, .bind h | _, _, _, _, _, _, .leaving h => by
    rw [Stmt.eval, Run.bind_of_error h.eval]
  | _, _, _, _, _, _, .leave _ _ => rfl
  | _, _, _, _, _, _, .leaveWith h => by
    rw [Stmt.eval, Run.bind_of_ok h.eval]
    rfl
  | _, _, _, _, _, _, .expr h => h.eval
  | _, _, _, _, _, _, .block h => h.eval

theorem StopsStatements.eval : ∀ {stmts stmts' : List (Stmt α)} {s t : Store α} {n : Node α}
    {i : Interrupt α}, StopsStatements call frame stmts stmts' s n i t →
      ∀ last, evalStatements call frame last stmts' s = some (.error i, t)
  | _, _, _, _, _, _, .head h, _ => by rw [evalStatements, Run.bind_of_error h.eval]
  | _, _, _, _, _, _, .tail hfirst h, _ => by
    rw [evalStatements, Run.bind_of_ok hfirst.eval, h.eval]

end

/-! ### The same tree -/

/-- A run that ends either passes or stops at some node. -/
abbrev PassesOrStops {β : Type} (run : Run α β) (s : Store α) (passes : β → Store α → Prop)
    (stops : Node α → Interrupt α → Store α → Prop) : Prop :=
  run.EndsIn s passes fun i t => ∃ n, stops n i t

section Same

variable (call) (frame)

mutual

theorem Expr.passesOrStops : ∀ (expr : Expr α) (s : Store α),
    PassesOrStops (expr.eval call frame) s (expr.Passes call frame expr s)
      (expr.Stops call frame expr s)
  | .int label n, s => .pure (.int label n s)
  | .bool label b, s => .pure (.bool label b s)
  | .string label text, s => .pure (.string label text s)
  | .name _ _, _ => .of_eq (fun _ _ h => .name h) fun _ _ h => ⟨_, .name h⟩
  | .function _ _ _, _ => .of_eq (fun _ _ h => .function h) nofun
  | .array _ elements, s =>
    (passesOrStops_evalAll elements s).bind (fun _ _ h => .pure (.array h))
      fun _ _ ⟨n, h⟩ => ⟨n, .array h⟩
  | .map _ entries, s =>
    (passesOrStops_evalEntries entries [] s).bind (fun _ _ h => .pure (.map h))
      fun _ _ ⟨n, h⟩ => ⟨n, .map h⟩
  | .unary _ _ operand, s => by
    refine (operand.passesOrStops s).bind (fun _ _ h => ?_) fun _ _ ⟨n, h⟩ => ⟨n, .operand h⟩
    exact .ofExcept (fun _ hop => .unary h hop) fun _ hop => ⟨_, .unary h hop⟩
  | .binary _ _ lhs rhs, s => by
    refine (lhs.passesOrStops s).bind (fun _ t hlhs => ?_) fun _ _ ⟨n, h⟩ => ⟨n, .lhs h⟩
    refine (rhs.passesOrStops t).bind (fun _ _ hrhs => ?_) fun _ _ ⟨n, h⟩ => ⟨n, .rhs hlhs h⟩
    exact .ofExcept (fun _ hop => .binary hlhs hrhs hop) fun _ hop => ⟨_, .binary hlhs hrhs hop⟩
  | .branch _ condition consequence alternative, s => by
    refine (condition.passesOrStops s).bind (fun v t hcondition => ?_)
      fun _ _ ⟨n, h⟩ => ⟨n, .condition h⟩
    cases htruthy : v.isTruthy with
    | true =>
      exact (consequence.passesOrStops t).imp (fun _ _ h => .consequence hcondition htruthy h)
        fun _ _ ⟨n, h⟩ => ⟨n, .consequence hcondition htruthy h⟩
    | false =>
      cases alternative with
      | none => exact .pure (.noAlternative hcondition htruthy)
      | some alternative =>
        exact (alternative.passesOrStops t).imp (fun _ _ h => .alternative hcondition htruthy h)
          fun _ _ ⟨n, h⟩ => ⟨n, .alternative hcondition htruthy h⟩
  | .call _ callee arguments, s => by
    refine (callee.passesOrStops s).bind (fun _ t hcallee => ?_) fun _ _ ⟨n, h⟩ => ⟨n, .callee h⟩
    refine (passesOrStops_evalAll arguments t).bind (fun _ _ harguments => ?_)
      fun _ _ ⟨n, h⟩ => ⟨n, .arguments hcallee h⟩
    exact .of_eq (fun _ _ h => .call hcallee harguments h)
      fun _ _ h => ⟨_, .call hcallee harguments h⟩
  | .index _ collection position, s => by
    refine (collection.passesOrStops s).bind (fun _ t hcollection => ?_)
      fun _ _ ⟨n, h⟩ => ⟨n, .collection h⟩
    refine (position.passesOrStops t).bind (fun _ _ hposition => ?_)
      fun _ _ ⟨n, h⟩ => ⟨n, .position hcollection h⟩
    exact .ofExcept (fun _ hop => .index hcollection hposition hop)
      fun _ hop => ⟨_, .index hcollection hposition hop⟩

theorem passesOrStops_evalAll : ∀ (values : List (Expr α)) (s : Store α),
    PassesOrStops (evalAll call frame values) s (PassesAll call frame values values s)
      (StopsAll call frame values values s)
  | [], s => .pure (.nil s)
  | expr :: rest, s => by
    refine (expr.passesOrStops s).bind (fun _ t hfirst => ?_) fun _ _ ⟨n, h⟩ => ⟨n, .head h⟩
    exact (passesOrStops_evalAll rest t).bind (fun _ _ h => .pure (.cons hfirst h))
      fun _ _ ⟨n, h⟩ => ⟨n, .tail hfirst h⟩

theorem passesOrStops_evalEntries : ∀ (entries : List (Expr α × Expr α))
    (known : List (Value.Key × Value)) (s : Store α),
    PassesOrStops (evalEntries call frame known entries) s
      (PassesEntries call frame known entries entries s)
      (StopsEntries call frame known entries entries s)
  | [], known, s => .pure (.nil known s)
  | (key, value) :: rest, known, s => by
    refine (key.passesOrStops s).bind (fun _ t hkey => ?_) fun _ _ ⟨n, h⟩ => ⟨n, .key h⟩
    refine .ofExcept_bind (fun position hposition => ?_)
      fun _ hposition => ⟨_, .noKey hkey hposition⟩
    refine (value.passesOrStops t).bind (fun w u hvalue => ?_)
      fun _ _ ⟨n, h⟩ => ⟨n, .value hkey hposition h⟩
    exact (passesOrStops_evalEntries rest (Entries.insert position w known) u).imp
      (fun _ _ h => .cons hkey hposition hvalue h)
      fun _ _ ⟨n, h⟩ => ⟨n, .tail hkey hposition hvalue h⟩

theorem Block.passesOrStops : ∀ (block : Block α) (s : Store α),
    PassesOrStops (block.eval call frame) s (block.Passes call frame block s)
      (block.Stops call frame block s)
  | .mk _ body, s =>
    (passesOrStops_evalStatements body .null s).imp (fun _ _ h => .mk h)
      fun _ _ ⟨n, h⟩ => ⟨n, .mk h⟩

theorem Stmt.passesOrStops : ∀ (stmt : Stmt α) (s : Store α),
    PassesOrStops (stmt.eval call frame) s (stmt.Passes call frame stmt s)
      (stmt.Stops call frame stmt s)
  | .bind _ target value, s => by
    refine (value.passesOrStops s).bind (fun v t hvalue => ?_) fun _ _ ⟨n, h⟩ => ⟨n, .bind h⟩
    intro result u hrun
    cases hrun
    exact .bind hvalue
  | .leave label none, s => .throw ⟨_, .leave label s⟩
  | .leave _ (some value), s =>
    (value.passesOrStops s).bind (fun _ _ h => .throw ⟨_, .leaveWith h⟩)
      fun _ _ ⟨n, h⟩ => ⟨n, .leaving h⟩
  | .expr _ value, s =>
    (value.passesOrStops s).imp (fun _ _ h => .expr h) fun _ _ ⟨n, h⟩ => ⟨n, .expr h⟩
  | .block inner, s =>
    (inner.passesOrStops s).imp (fun _ _ h => .block h) fun _ _ ⟨n, h⟩ => ⟨n, .block h⟩

theorem passesOrStops_evalStatements : ∀ (stmts : List (Stmt α)) (last : Value) (s : Store α),
    PassesOrStops (evalStatements call frame last stmts) s
      (PassesStatements call frame last stmts stmts s) (StopsStatements call frame stmts stmts s)
  | [], last, s => .pure (.nil last s)
  | stmt :: rest, _, s => by
    refine (stmt.passesOrStops s).bind (fun v t hfirst => ?_) fun _ _ ⟨n, h⟩ => ⟨n, .head h⟩
    exact (passesOrStops_evalStatements rest v t).imp (fun _ _ h => .cons hfirst h)
      fun _ _ ⟨n, h⟩ => ⟨n, .tail hfirst h⟩

end

end Same

/-! ### Programs -/

/-- A program that an interrupt stops is stopped at one of its nodes. It keeps what it has written
and bound up to there, and so does every program with other code behind the node and in branches
that were not taken. -/
theorem run_of_stopped {program : Program Token} (herrors : program.errors = []) {limit frame : Nat}
    {store after : Store Token} {interrupt : Interrupt Token}
    (hstopped : evalStatements (Run.call limit) frame .null program.statements store
      = some (.error interrupt, after)) :
    program.run limit frame store = some (Interrupt.finish (.error interrupt), after) ∧
      (∃ node, StopsStatements (Run.call limit) frame program.statements program.statements store
        node interrupt after) ∧
      ∀ node (other : Program Token), other.errors = [] →
        StopsStatements (Run.call limit) frame program.statements other.statements store node
          interrupt after →
        other.run limit frame store = program.run limit frame store := by
  have hrun : program.run limit frame store
      = some (Interrupt.finish (.error interrupt), after) := by
    rw [Program.run_of_errors_eq_nil herrors, hstopped]
    rfl
  have hnode := passesOrStops_evalStatements (Run.call limit) frame program.statements .null store
    _ _ hstopped
  refine ⟨hrun, hnode, fun node other hother hstops => ?_⟩
  rw [hrun, Program.run_of_errors_eq_nil hother, hstops.eval .null]
  rfl

/-- A fault within an array in a branch, with other elements, branches and statements. -/
theorem run_of_stopped_array :
    let token : Token := .eofAt 0
    let bind : Stmt Token := .bind token ⟨token, "a"⟩ (.int token 1)
    let fault : Expr Token := .unary token .negate (.bool token true)
    let program : Program Token := ⟨[bind, .expr token (.branch token (.bool token true)
      (.mk token [.expr token (.array token [fault, .int token 1])]) (some (.mk token []))),
      .expr token (.int token 2)], []⟩
    let other : Program Token := ⟨[bind, .expr token (.branch token (.bool token true)
      (.mk token [.expr token (.array token [fault]), .leave token none])
      (some (.mk token [.expr token (.name token "b")])))], []⟩
    let after : Store Token := Store.initial.declare Store.globalFrame "a" (.int 1)
    let failure : Failure := ⟨.unknownUnary .negate .boolean, token.span⟩
    program.errors = [] ∧
      evalStatements (Run.call 0) Store.globalFrame .null program.statements .initial
        = some (.error (.failed failure.fault token), after) ∧
      program.run 0 Store.globalFrame .initial = some (.error failure, after) ∧
      other.run 0 Store.globalFrame .initial = some (.error failure, after) := by
  intro token bind fault program other after failure
  have hstopped : evalStatements (Run.call 0) Store.globalFrame .null program.statements .initial
      = some (.error (.failed failure.fault token), after) := rfl
  have hstops : StopsStatements (Run.call 0) Store.globalFrame program.statements other.statements
      .initial (.expr fault) (.failed failure.fault token) after :=
    .tail (.bind (.int _ _ _)) (.head (.expr (.consequence (.bool _ _ _) rfl
      (.mk (.head (.expr (.array (.head (.unary (.bool _ _ _) rfl)))))))))
  obtain ⟨hrun, -, hother⟩ := run_of_stopped rfl hstopped
  exact ⟨rfl, hstopped, hrun, (hother _ other rfl hstops).trans hrun⟩

end Grammar

end Scriptlet
