import Scriptlet.Proofs.Beside
import Scriptlet.Proofs.Deeper

/-! # Loops by recursion

A function that calls itself on the rest of an array until nothing is left of it, and hands on what
it has made of the elements so far.
-/

namespace Scriptlet

variable {α : Type}

/-! ### Bodies of functions -/

namespace Store

variable {s : Store α}

/-- The store that the body of a function is evaluated in. -/
def enter (s : Store α) (parent : Nat) (bindings : List (Grammar.Ident α × Value)) : Store α :=
  bindings.foldl (fun t binding => t.declare s.frames.size binding.1.name binding.2)
    (s.openFrame parent).2

theorem lookup_foldl_declare {id : Nat} (bindings : List (Grammar.Ident α × Value)) (name : String)
    (hid : id < s.frames.size) :
    (bindings.foldl (fun t binding => t.declare id binding.1.name binding.2) s).lookup id name
      = ((bindings.reverse.find? (·.1.name = name)).map (·.2)).or (s.lookup id name) := by
  induction bindings generalizing s with
  | nil => rfl
  | cons binding rest ih =>
    have hsize : id < (s.declare id binding.1.name binding.2).frames.size := by
      rwa [declare, Array.size_modify]
    rw [List.foldl_cons, ih hsize, lookup_declare hid, List.reverse_cons, List.find?_append]
    cases List.find? _ rest.reverse with
    | some found => rfl
    | none =>
      rw [List.find?_singleton, Option.map_none, Option.none_or, Option.none_or]
      by_cases hname : binding.1.name = name <;> simp [hname]

/-- A parameter means its argument, and other names mean what they mean outside. -/
theorem lookup_enter {parent : Nat} (hparent : parent < s.frames.size)
    (bindings : List (Grammar.Ident α × Value)) (name : String) :
    (s.enter parent bindings).lookup s.frames.size name
      = ((bindings.reverse.find? (·.1.name = name)).map (·.2)).or (s.lookup parent name) := by
  have hsize : s.frames.size < (s.openFrame parent).2.frames.size := by
    rw [openFrame, Array.size_push]
    exact Nat.lt_succ_self _
  rw [enter, lookup_foldl_declare bindings name hsize, lookup_openFrame hparent]

end Store

namespace Run

theorem declareAll_apply {frame : Nat} (bindings : List (Grammar.Ident α × Value)) (s : Store α) :
    declareAll frame bindings s = some (.ok (),
      bindings.foldl (fun t binding => t.declare frame binding.1.name binding.2) s) := by
  induction bindings generalizing s with
  | nil => rfl
  | cons binding rest ih =>
    have hfirst : declare frame binding.1.name binding.2 s
        = some (.ok (), s.declare frame binding.1.name binding.2) := rfl
    rw [declareAll, bind_of_ok hfirst, ih, List.foldl_cons]

theorem call_function {s : Store α} {reference : Nat} {closure : Closure α}
    (hclosure : s.closures[reference]? = some closure) {arguments : List Value}
    (hlength : closure.parameters.length = arguments.length) (limit : Nat) (site : α) :
    call (limit + 1) site (.function reference) arguments s
      = untilReturn (closure.body.eval (call limit) s.frames.size)
          (s.enter closure.frame (closure.parameters.zip arguments)) := by
  have hget : (get : Run α (Store α)) s = some (.ok s, s) := rfl
  have hopen : openFrame closure.frame s
      = some (.ok s.frames.size, (s.openFrame closure.frame).2) := rfl
  rw [call, bind_of_ok hget, hclosure]
  dsimp only
  rw [if_neg (not_not.mpr hlength), bind_of_ok hopen, bind_of_ok (declareAll_apply _ _)]
  rfl

end Run

namespace Store

variable (s : Store α) (parent : Nat) (bindings : List (Grammar.Ident α × Value))

theorem foldl_declare {β : Type} {f : Store α → β} {id : Nat}
    (h : ∀ t name value, f (t.declare id name value) = f t) :
    f (bindings.foldl (fun t binding => t.declare id binding.1.name binding.2) s) = f s := by
  induction bindings generalizing s with
  | nil => rfl
  | cons binding rest ih => exact (ih (s.declare id _ _)).trans (h s _ _)

theorem output_enter : (s.enter parent bindings).output = s.output :=
  foldl_declare (s.openFrame parent).2 bindings fun _ _ _ => rfl

theorem size_frames_enter : (s.enter parent bindings).frames.size = s.frames.size + 1 :=
  (foldl_declare (f := (·.frames.size)) (s.openFrame parent).2 bindings
    fun _ _ _ => Array.size_modify).trans (Array.size_push _)

theorem footprint_enter : Footprint (fun _ _ => False) s (s.enter parent bindings) := by
  have heffect : Effect (fun id _ => id = s.frames.size)
      (Run.declareAll s.frames.size bindings : Run α Unit) := .declareAll (fun _ => rfl) bindings
  have hbound := heffect.footprint _ _ _ (Run.declareAll_apply bindings (s.openFrame parent).2)
  exact ((Footprint.openFrame parent s).trans hbound).mono
    fun id _ hlt heq => absurd heq (Nat.ne_of_lt hlt)

end Store

namespace Grammar

open Value (Builtin)

theorem ofNat_ne_zero {n : Nat} (hpos : 0 < n) (hlt : n < 2 ^ 64) : Int64.ofNat n ≠ 0 := by
  intro heq
  have hbits : n % 2 ^ 64 = 0 := congrArg (·.toBitVec.toNat) heq
  rw [Nat.mod_eq_of_lt hlt] at hbits
  exact hpos.ne' hbits

/-! ### The code of a loop -/

/-- The body of a loop, with its labels. What is made of an array goes on in `next`. -/
def loopBody (site : Nat → α) (made : String) (next : Expr α) : Block α :=
  .mk (site 0) [.expr (site 1) (.branch (site 2)
    (.binary (site 3) .equal (.call (site 4) (.name (site 5) "len") [.name (site 6) "arr"])
      (.int (site 7) 0))
    (.mk (site 8) [.expr (site 9) (.name (site 10) made)])
    (some (.mk (site 11) [.expr (site 12) (.call (site 13) (.name (site 14) "iter")
      [.call (site 15) (.name (site 16) "rest") [.name (site 17) "arr"], next])])))]

/-- Makes a loop, and calls it with an array and what to start from. -/
def startLoop (site : Nat → α) (made : String) (body : Block α) (start : Expr α) : Block α :=
  .mk (site 0) [
    .bind (site 1) ⟨site 2, "iter"⟩
      (.function (site 3) [⟨site 4, "arr"⟩, ⟨site 5, made⟩] body),
    .expr (site 6) (.call (site 7) (.name (site 8) "iter") [.name (site 9) "arr", start])]

/-- The names of the built-in functions that loops call. -/
def loopNames : List String := ["len", "first", "rest", "push"]

/-- What the names in a loop mean: the array that is left, what is made so far, the function that is
applied to elements and the loop itself. -/
structure InLoop (s : Store α) (frame : Nat) (made : String) (elements : List Value)
    (value function : Value) (loop : Nat) : Prop where
  array : s.lookup frame "arr" = some (.array elements)
  value : s.lookup frame made = some value
  function : s.lookup frame "f" = some function
  loop : s.lookup frame "iter" = some (.function loop)
  free : ∀ name ∈ loopNames, s.lookup frame name = none

section Evaluation

variable {call : α → Value → List Value → Run α Value} {s : Store α} {frame : Nat}

theorem eval_of_lookup (label : α) {name : String} {value : Value}
    (h : s.lookup frame name = some value) :
    (Expr.name label name).eval call frame s = some (.ok value, s) := by
  rw [Expr.eval, Run.name_apply, h]
  rfl

theorem eval_of_free (label : α) {name : String} {builtin : Builtin}
    (h : s.lookup frame name = none) (hname : Builtin.ofName? name = some builtin) :
    (Expr.name label name).eval call frame s = some (.ok (.builtin builtin), s) := by
  rw [Expr.eval, Run.name_apply, h, hname]
  rfl

theorem evalAll_singleton {expr : Expr α} {value : Value}
    (h : expr.eval call frame s = some (.ok value, s)) :
    evalAll call frame [expr] s = some (.ok [value], s) := by
  rw [evalAll, Run.bind_of_ok h]
  rfl

theorem evalAll_pair_bind {β : Type} (first second : Expr α) (k : List Value → Run α β) :
    evalAll call frame [first, second] >>= k
      = first.eval call frame >>= fun value => second.eval call frame >>= fun other =>
          k [value, other] := by
  simp only [evalAll, bind_assoc, pure_bind]

theorem eval_call_one (label : α) {callee argument : Expr α} {function value : Value}
    (hcallee : callee.eval call frame s = some (.ok function, s))
    (hargument : argument.eval call frame s = some (.ok value, s)) :
    (Expr.call label callee [argument]).eval call frame s = call label function [value] s := by
  rw [Expr.eval, Run.bind_of_ok hcallee, Run.bind_of_ok (evalAll_singleton hargument)]

/-- A call with two arguments, of which the second one may do anything. -/
theorem eval_call_pair (label : α) {callee first second : Expr α} {function value : Value}
    (hcallee : callee.eval call frame s = some (.ok function, s))
    (hfirst : first.eval call frame s = some (.ok value, s)) :
    (Expr.call label callee [first, second]).eval call frame s
      = (second.eval call frame >>= fun other => call label function [value, other]) s := by
  rw [Expr.eval, Run.bind_of_ok hcallee, evalAll_pair_bind, Run.bind_of_ok hfirst]

theorem eval_block_expr (label inner : α) (expr : Expr α) :
    (Block.mk label [.expr inner expr]).eval call frame = expr.eval call frame := by
  rw [Block.eval, evalStatements, Stmt.eval]
  exact bind_pure _

section InLoop

variable {loop : Nat} {made : String} {elements : List Value} {value function : Value}
  (h : InLoop s frame made elements value function loop) (limit : Nat)

include h

theorem InLoop.eval_free (label : α) {name : String} {builtin : Builtin} (hname : name ∈ loopNames)
    (hbuiltin : Builtin.ofName? name = some builtin) :
    (Expr.name label name).eval call frame s = some (.ok (.builtin builtin), s) :=
  eval_of_free label (h.free name hname) hbuiltin

/-- A built-in function of the array that is left. -/
theorem InLoop.eval_ofArray (outer inner last : α) {name : String} {builtin : Builtin}
    (hname : name ∈ loopNames) (hbuiltin : Builtin.ofName? name = some builtin)
    (hputs : builtin ≠ .puts) {result : Value}
    (hresult : builtin.call [.array elements] = .ok result) :
    (Expr.call outer (.name inner name) [.name last "arr"]).eval (Run.call limit) frame s
      = some (.ok result, s) := by
  rw [eval_call_one outer (h.eval_free inner hname hbuiltin) (eval_of_lookup last h.array),
    Run.call, Run.builtin, if_neg hputs, hresult]
  rfl

/-- There is no memory for so many elements that the length wraps around. -/
theorem InLoop.eval_test (site : Nat → α) (hsize : elements.length < 2 ^ 64) :
    (Expr.binary (site 3) .equal (.call (site 4) (.name (site 5) "len") [.name (site 6) "arr"])
      (.int (site 7) 0)).eval (Run.call limit) frame s
        = some (.ok (.bool elements.isEmpty), s) := by
  have hlen := h.eval_ofArray limit (site 4) (site 5) (site 6)
    (show "len" ∈ loopNames by decide) rfl (by decide) rfl
  have hzero : (Expr.int (site 7) 0).eval (Run.call limit) frame s = some (.ok (.int 0), s) := rfl
  have hequal : Value.binary .equal (.int (.ofNat elements.length)) (.int 0)
      = .ok (.bool elements.isEmpty) := by
    cases elements with
    | nil => rfl
    | cons first rest =>
      have hne := ofNat_ne_zero (Nat.succ_pos rest.length) hsize
      rw [Value.binary, Value.arithmetic, List.length_cons, decide_eq_false hne, List.isEmpty_cons]
  rw [Expr.eval, Run.bind_of_ok hlen, Run.bind_of_ok hzero, hequal]
  rfl

variable (site : Nat → α) (next : Expr α)

theorem InLoop.eval_loopBody_nil (hnil : elements = []) :
    (loopBody site made next).eval (Run.call limit) frame s = some (.ok value, s) := by
  have htest := h.eval_test limit site (by rw [hnil]; decide)
  rw [loopBody, eval_block_expr, Expr.eval, Run.bind_of_ok htest, hnil]
  rw [show (Value.bool [].isEmpty : Value).isTruthy = true from rfl, if_pos rfl, eval_block_expr,
    eval_of_lookup (site 10) h.value]

theorem InLoop.eval_loopBody_cons {first : Value} {rest : List Value}
    (hcons : elements = first :: rest) (hsize : elements.length < 2 ^ 64) :
    (loopBody site made next).eval (Run.call limit) frame s
      = (next.eval (Run.call limit) frame >>= fun value =>
          Run.call limit (site 13) (.function loop) [.array rest, value]) s := by
  have htest := h.eval_test limit site hsize
  have hresult : Builtin.rest.call [.array elements] = .ok (.array rest) := by
    rw [hcons]
    rfl
  have hrest := h.eval_ofArray limit (site 15) (site 16) (site 17)
    (show "rest" ∈ loopNames by decide) rfl (by decide) hresult
  rw [loopBody, eval_block_expr, Expr.eval, Run.bind_of_ok htest, hcons]
  rw [show (Value.bool (first :: rest).isEmpty : Value).isTruthy = false from rfl,
    if_neg Bool.false_ne_true, evalAlternative, eval_block_expr,
    eval_call_pair (site 13) (eval_of_lookup (site 14) h.loop) hrest]

end InLoop

end Evaluation

/-! ### Turns of a loop -/

/-- What `next` makes of one element, run by `step` under a limit: a call of the function, and what
nothing but such a call can do. -/
structure Turn (made : String) (next : Expr α)
    (step : Nat → Value → Value → Value → Run α Value) : Prop where
  eval : ∀ {s : Store α} {frame loop : Nat} {value function first : Value} {rest : List Value},
    InLoop s frame made (first :: rest) value function loop → ∀ limit,
      next.eval (Run.call limit) frame s = step limit function value first s
  follows : ∀ (ρ : Renaming) (limit : Nat) (function value first : Value),
    Follows ρ (Value.rename ρ.reference) (step limit function value first)
      (step limit (function.rename ρ.reference) (value.rename ρ.reference)
        (first.rename ρ.reference))
  effect : ∀ (limit : Nat) (function value first : Value),
    Effect (fun _ _ => False) (step limit function value first)
  stays : ∀ {s : Store α} {function value first : Value}, s.Reachable .any →
    s.Admits .any function → s.Admits .any value → s.Admits .any first → ∀ limit,
      (step limit function value first).Stays .any s fun result t => t.Admits .any result
  grows : ∀ {limit limit' : Nat}, limit ≤ limit' → ∀ function value first : Value,
    Run.Extends (step limit function value first) (step limit' function value first)
  settles : ∀ (limit : Nat) (function value first : Value),
    Run.Settles (step limit function value first)

/-- The loop is in the store, and outside it stand the function and the names it uses. -/
structure LoopAt (s : Store α) (made : String) (next : Expr α) (function : Value)
    (frame loop : Nat) : Prop where
  closure : ∃ (first second : α) (site : Nat → α), s.closures[loop]?
    = some ⟨[⟨first, "arr"⟩, ⟨second, made⟩], loopBody site made next, frame⟩
  frame_lt : frame < s.frames.size
  function : s.lookup frame "f" = some function
  loop : s.lookup frame "iter" = some (.function loop)
  free : ∀ name ∈ loopNames, s.lookup frame name = none

/-- The names that mean something else in a loop. -/
def takenNames : List String := "arr" :: "f" :: "iter" :: loopNames

theorem LoopAt.inLoop {base s : Store α} {made : String} {next : Expr α} {function : Value}
    {frame loop : Nat} (h : LoopAt base made next function frame loop) (hmade : made ∉ takenNames)
    (hfoot : Footprint (fun _ _ => False) base s) (first second : α) (elements : List Value)
    (value : Value) :
    InLoop (s.enter frame [(⟨first, "arr"⟩, .array elements), (⟨second, made⟩, value)])
      s.frames.size made elements value function loop := by
  have hlt : frame < s.frames.size := h.frame_lt.trans_le hfoot.size_le.1
  have hne : ∀ name ∈ takenNames, made ≠ name := fun name hname heq => hmade (heq ▸ hname)
  have houtside : ∀ name, name ≠ "arr" → name ≠ made →
      (s.enter frame [(⟨first, "arr"⟩, .array elements), (⟨second, made⟩, value)]).lookup
        s.frames.size name = base.lookup frame name := by
    intro name harr hname
    rw [Store.lookup_enter hlt, Store.lookup_of_footprint hfoot h.frame_lt]
    simp [harr.symm, hname.symm]
  refine {
    array := ?_
    value := ?_
    function := (houtside _ (by decide) (hne _ (by decide)).symm).trans h.function
    loop := (houtside _ (by decide) (hne _ (by decide)).symm).trans h.loop
    free := fun name hname => ?_ }
  · rw [Store.lookup_enter hlt]
    simp [hne "arr" (by decide)]
  · rw [Store.lookup_enter hlt]
    simp
  · have harr : name ≠ "arr" := by
      rintro rfl
      exact absurd hname (by decide)
    have htaken : name ∈ takenNames := List.mem_append_right ["arr", "f", "iter"] hname
    exact (houtside name harr (hne name htaken).symm).trans (h.free name hname)

theorem atCall_of_settles {run : Run α Value} (h : run.Settles) {s t : Store α}
    {result : Except (Interrupt α) Value} (hrun : run s = some (result, t)) :
    Run.atCall result = result := by
  rcases result with (value | _) | _
  · exact absurd hrun (h s value t)
  · rfl
  · rfl

/-! ### Whole loops -/

/-- Two stores from which the calls of a function go the same way. The second one holds the loop
besides, and so it can not hold the function under another name. -/
structure Parallel (base : Store α) (function function' : Value) (ρ : Renaming) (s t : Store α) :
    Prop where
  reachable : s.Reachable .any
  renamed : s.Renamed ρ t
  output : t.output = s.output
  kept : Footprint (fun _ _ => False) base t
  admits : s.Admits .any function
  function_eq : function.rename ρ.reference = function'

namespace Parallel

variable {base s t : Store α} {function function' : Value} {ρ : Renaming}

theorem enter (h : Parallel base function function' ρ s t) (parent : Nat)
    (bindings : List (Ident α × Value)) :
    ∃ ρ' : Renaming, Parallel base function function' ρ' s (t.enter parent bindings) ∧
      ρ.Agrees ρ' s := by
  have hfoot := t.footprint_enter parent bindings
  obtain ⟨ρ', hrenamed, hagrees⟩ := h.renamed.beside h.reachable.sound hfoot
  exact ⟨ρ', {
    reachable := h.reachable
    renamed := hrenamed
    output := (t.output_enter parent bindings).trans h.output
    kept := h.kept.trans hfoot
    admits := h.admits
    function_eq := (hagrees.rename_eq h.admits).trans h.function_eq }, hagrees⟩

theorem turn {made : String} {next : Expr α} {step : Nat → Value → Value → Value → Run α Value}
    (h : Parallel base function function' ρ s t) (hturn : Turn made next step) {value first : Value}
    (hvalue : s.Admits .any value) (hfirst : s.Admits .any first) {limit limit' : Nat}
    (hle : limit ≤ limit') {result : Except (Interrupt α) Value} {after : Store α}
    (hrun : step limit function value first s = some (result, after)) :
    ∃ after', step limit' function' (value.rename ρ.reference) (first.rename ρ.reference) t
        = some (renameEnd ρ (Value.rename ρ.reference) result, after') ∧
      Parallel base function function' ρ after after' ∧ s.Leads .any after ∧
      ∀ made, result = .ok made → after.Admits .any made := by
  have hstays := hturn.stays h.reachable h.admits hvalue hfirst limit
  have hleads := hstays.leads hrun
  obtain ⟨after', hrun', hrenamed, houtput⟩ :=
    hturn.follows ρ limit function value first s t h.renamed h.output result after hrun
  rw [h.function_eq] at hrun'
  have hfoot := (hturn.effect limit function' _ _).footprint t _ after' hrun'
  refine ⟨after', hturn.grows hle _ _ _ t _ hrun', {
    reachable := hleads.reachable
    renamed := hrenamed
    output := houtput
    kept := h.kept.trans hfoot
    admits := hleads.admits h.admits
    function_eq := h.function_eq }, hleads, ?_⟩
  rintro made rfl
  exact (hstays _ _ hrun).2

end Parallel

section Loop

variable {base : Store α} {made : String} {next : Expr α}
  {step : Nat → Value → Value → Value → Run α Value} {function function' : Value}
  {frame loop limit : Nat}

section Call

variable (hloop : LoopAt base made next function frame loop) (hmade : made ∉ takenNames)
  {t : Store α} (hfoot : Footprint (fun _ _ => False) base t) (value : Value) (limit : Nat)
  (site : α)

include hloop hmade hfoot

theorem LoopAt.call_nil :
    ∃ bindings, Run.call (limit + 1) site (.function loop) [.array [], value] t
      = some (.ok value, t.enter frame bindings) := by
  obtain ⟨first, second, labels, hclosure⟩ := hloop.closure
  have hbody := (hloop.inLoop hmade hfoot first second [] value).eval_loopBody_nil limit labels next
    rfl
  refine ⟨[(⟨first, "arr"⟩, .array []), (⟨second, made⟩, value)], ?_⟩
  rw [Run.call_function (hfoot.closures _ _ hclosure) rfl, Run.untilReturn_apply]
  exact congrArg _ hbody

theorem LoopAt.call_cons (hturn : Turn made next step) (element : Value) (rest : List Value)
    (hsize : rest.length + 1 < 2 ^ 64) :
    ∃ bindings inner, Run.call (limit + 1) site (.function loop)
        [.array (element :: rest), value] t
      = Run.untilReturn (step limit function value element >>= fun value =>
          Run.call limit inner (.function loop) [.array rest, value])
        (t.enter frame bindings) := by
  obtain ⟨first, second, labels, hclosure⟩ := hloop.closure
  have hscope := hloop.inLoop hmade hfoot first second (element :: rest) value
  refine ⟨[(⟨first, "arr"⟩, .array (element :: rest)), (⟨second, made⟩, value)], labels 13, ?_⟩
  rw [Run.call_function (hfoot.closures _ _ hclosure) rfl, Run.untilReturn_apply,
    Run.untilReturn_apply]
  refine congrArg _ ((hscope.eval_loopBody_cons limit labels next rfl hsize).trans ?_)
  rw [Run.bind_apply, hturn.eval hscope, ← Run.bind_apply]

end Call

/-- A loop folds the array: it ends as the turns do that are taken one after the other. -/
theorem Turn.call_loop (hturn : Turn made next step)
    (hloop : LoopAt base made next function' frame loop) (hmade : made ∉ takenNames)
    {elements : List Value} : ∀ {value : Value} {s t : Store α} {ρ : Renaming} {limit' : Nat}
      {result : Except (Interrupt α) Value} {after : Store α} (site : α),
      Parallel base function function' ρ s t → s.Admits .any value →
      (∀ element ∈ elements, s.Admits .any element) → elements.length < 2 ^ 64 →
      limit + elements.length < limit' →
      elements.foldlM (step limit function) value s = some (result, after) →
      ∃ (ρ' : Renaming) (after' : Store α),
        Run.call limit' site (.function loop)
            [.array (elements.map (Value.rename ρ.reference)), value.rename ρ.reference] t
          = some (renameEnd ρ' (Value.rename ρ'.reference) result, after') ∧
        after.Renamed ρ' after' ∧ after'.output = after.output ∧ ρ.Agrees ρ' s := by
  induction elements with
  | nil =>
    intro value s t ρ limit' result after site h hvalue _ _ hlimit hrun
    cases hrun
    obtain ⟨depth, rfl⟩ : ∃ depth, limit' = depth + 1 :=
      Nat.exists_eq_succ_of_ne_zero (by omega)
    obtain ⟨bindings, hcall⟩ :=
      hloop.call_nil hmade h.kept (value.rename ρ.reference) depth site
    obtain ⟨ρ', hentered, hagrees⟩ := h.enter frame bindings
    refine ⟨ρ', _, hcall.trans ?_, hentered.renamed, hentered.output, hagrees⟩
    rw [← hagrees.rename_eq hvalue]
    rfl
  | cons element rest ih =>
    intro value s t ρ limit' result after site h hvalue helements hsize hlimit hrun
    obtain ⟨helement, hrest⟩ := List.forall_mem_cons.mp helements
    rw [List.length_cons] at hsize hlimit
    obtain ⟨depth, rfl⟩ : ∃ depth, limit' = depth + 1 :=
      Nat.exists_eq_succ_of_ne_zero (by omega)
    obtain ⟨bindings, inner, hcall⟩ := hloop.call_cons hmade h.kept (value.rename ρ.reference)
      depth site hturn (element.rename ρ.reference) (rest.map (Value.rename ρ.reference))
      (by rwa [List.length_map])
    obtain ⟨ρ₁, hentered, hagrees₁⟩ := h.enter frame bindings
    rw [List.foldlM_cons, Run.bind_apply, Option.bind_eq_some_iff] at hrun
    obtain ⟨⟨turned, s₁⟩, hturned, hothers⟩ := hrun
    have hle : limit ≤ depth := by omega
    obtain ⟨t₁, hturned', hparallel, hleads, hadmits⟩ :=
      hentered.turn hturn hvalue helement hle hturned
    rw [hagrees₁.rename_eq hvalue, hagrees₁.rename_eq helement] at hturned'
    rw [List.map_cons, hcall, Run.untilReturn_apply]
    cases turned with
    | error interrupt =>
      cases hothers
      have hsettled := atCall_of_settles (hturn.settles depth _ _ _) hturned'
      refine ⟨ρ₁, t₁, ?_, hparallel.renamed, hparallel.output, hagrees₁⟩
      rw [Run.bind_of_error hturned', Option.map_some]
      exact congrArg (fun result => some (result, t₁)) hsettled
    | ok turned =>
      have hsame : rest.map (Value.rename ρ.reference) = rest.map (Value.rename ρ₁.reference) :=
        List.map_congr_left fun element h => (hagrees₁.rename_eq (hrest element h)).symm
      have hdepth : limit + rest.length < depth := by omega
      obtain ⟨ρ₂, after', hcall', hrenamed, houtput, hagrees₂⟩ :=
        ih inner hparallel (hadmits turned rfl)
          (fun element h => hleads.admits (hrest element h)) (by omega) hdepth hothers
      refine ⟨ρ₂, after', ?_, hrenamed, houtput,
        hagrees₁.trans hagrees₂ hleads.frames hleads.closures⟩
      rw [Run.bind_of_ok hturned', hsame, hcall', Option.map_some]
      exact congrArg (fun result => some (result, after'))
        (atCall_of_settles (settles_call depth inner _ _) hcall')

end Loop

/-! ### Functions that start a loop -/

/-- What the names in a function mean that starts a loop, and what it starts from. -/
structure AtStart (s : Store α) (frame : Nat) (elements : List Value) (function : Value)
    (start : Expr α) (value : Value) : Prop where
  frame_lt : frame < s.frames.size
  array : s.lookup frame "arr" = some (.array elements)
  function : s.lookup frame "f" = some function
  free : ∀ name ∈ loopNames, s.lookup frame name = none
  start : ∀ (limit : Nat) (t : Store α),
    (∀ name, name ≠ "iter" → t.lookup frame name = s.lookup frame name) →
    start.eval (Run.call limit) frame t = some (.ok value, t)

/-- The store with a loop in it, which the frame calls by its name. -/
def withLoop (s : Store α) (frame : Nat) (closure : Closure α) : Store α :=
  (s.close closure).2.declare frame "iter" (.function s.closures.size)

theorem lookup_withLoop {s : Store α} {frame : Nat} (hframe : frame < s.frames.size)
    (closure : Closure α) (name : String) : (withLoop s frame closure).lookup frame name
      = if "iter" = name then some (.function s.closures.size) else s.lookup frame name := by
  have hclosed : (s.close closure).2.lookup frame name = s.lookup frame name :=
    Store.lookup_of_footprint (.close closure s) hframe name
  rw [withLoop, Store.lookup_declare (show frame < (s.close closure).2.frames.size from hframe),
    hclosed]

theorem footprint_withLoop (s : Store α) (parent : Nat) (bindings : List (Ident α × Value))
    (closure : Closure α) :
    Footprint (fun _ _ => False) s (withLoop (s.enter parent bindings) s.frames.size closure) := by
  have hentered : Footprint (fun id _ => id = s.frames.size) s (s.enter parent bindings) :=
    (s.footprint_enter parent bindings).mono fun _ _ _ => False.elim
  have hbound : Footprint (fun id _ => id = s.frames.size) s
      (withLoop (s.enter parent bindings) s.frames.size closure) :=
    (hentered.trans (.close closure _)).trans (.declare rfl _ _)
  exact hbound.mono fun id _ hlt heq => absurd heq (Nat.ne_of_lt hlt)

namespace AtStart

variable {s : Store α} {frame : Nat} {elements : List Value} {function value : Value}
  {start : Expr α} (h : AtStart s frame elements function start value)

include h

theorem loopAt {made : String} {next : Expr α} (first second : α) (labels : Nat → α) :
    LoopAt (withLoop s frame ⟨[⟨first, "arr"⟩, ⟨second, made⟩], loopBody labels made next, frame⟩)
      made next function frame s.closures.size where
  closure := ⟨first, second, labels, Array.getElem?_push_size⟩
  frame_lt := by
    rw [withLoop, Store.declare, Array.size_modify]
    exact h.frame_lt
  function := by
    rw [lookup_withLoop h.frame_lt, if_neg (by decide), h.function]
  loop := by
    rw [lookup_withLoop h.frame_lt, if_pos rfl]
  free name hname := by
    have hiter : "iter" ≠ name := by
      rintro rfl
      exact absurd hname (by decide)
    rw [lookup_withLoop h.frame_lt, if_neg hiter, h.free name hname]

theorem eval_startLoop (site : Nat → α) (made : String) (body : Block α) (limit : Nat) :
    (startLoop site made body start).eval (Run.call limit) frame s
      = Run.call limit (site 7) (.function s.closures.size) [.array elements, value]
          (withLoop s frame ⟨[⟨site 4, "arr"⟩, ⟨site 5, made⟩], body, frame⟩) := by
  have hbind : (Stmt.bind (site 1) ⟨site 2, "iter"⟩
      (.function (site 3) [⟨site 4, "arr"⟩, ⟨site 5, made⟩] body)).eval (Run.call limit) frame s
        = some (.ok (.function s.closures.size),
            withLoop s frame ⟨[⟨site 4, "arr"⟩, ⟨site 5, made⟩], body, frame⟩) := rfl
  have hlookup := lookup_withLoop h.frame_lt ⟨[⟨site 4, "arr"⟩, ⟨site 5, made⟩], body, frame⟩
  have hloop := (hlookup "iter").trans (if_pos rfl)
  have harray := ((hlookup "arr").trans (if_neg (by decide))).trans h.array
  have hstart := h.start limit _ fun name hname => (hlookup name).trans (if_neg hname.symm)
  have hlast (run : Run α Value) :
      (run >>= fun value => evalStatements (Run.call limit) frame value []) = run := bind_pure run
  rw [startLoop, Block.eval, evalStatements, Run.bind_of_ok hbind, evalStatements, Stmt.eval, hlast,
    eval_call_pair (site 7) (eval_of_lookup (site 8) hloop) (eval_of_lookup (site 9) harray),
    Run.bind_of_ok hstart]

end AtStart

/-- The run has ended with this result and in this store, but for the numbers of the frames and the
functions that are not in the first store. -/
def EndsLike (s : Store α) (ending : Option (Except (Interrupt α) Value × Store α))
    (result : Except (Interrupt α) Value) (after : Store α) : Prop :=
  ∃ (ρ : Renaming) (after' : Store α),
    ending = some (renameEnd ρ (Value.rename ρ.reference) result, after') ∧
      after.Renamed ρ after' ∧ after'.output = after.output ∧ ρ.Keeps s

/-- A function that starts a loop folds the array. -/
theorem Turn.call_startLoop {made : String} {next start : Expr α}
    {step : Nat → Value → Value → Value → Run α Value} {function value : Value} {s : Store α}
    {reference frame limit limit' : Nat} {parameters : List (Ident α)} {site labels : Nat → α}
    {arguments elements : List Value} (hturn : Turn made next step) (hmade : made ∉ takenNames)
    (hs : s.Reachable .any)
    (hclosure : s.closures[reference]?
      = some ⟨parameters, startLoop site made (loopBody labels made next) start, frame⟩)
    (hlength : parameters.length = arguments.length)
    (hstart : AtStart (s.enter frame (parameters.zip arguments)) s.frames.size elements function
      start value)
    (hfunction : s.Admits .any function) (hvalue : s.Admits .any value)
    (helements : ∀ element ∈ elements, s.Admits .any element) (hsize : elements.length < 2 ^ 64)
    (hlimit : limit + elements.length + 1 < limit') (callSite : α)
    {result : Except (Interrupt α) Value} {after : Store α}
    (hrun : elements.foldlM (step limit function) value s = some (result, after)) :
    EndsLike s (Run.call limit' callSite (.function reference) arguments s) result after := by
  obtain ⟨depth, rfl⟩ : ∃ depth, limit' = depth + 1 := Nat.exists_eq_succ_of_ne_zero (by omega)
  -- The loop is a function of the frame of the call, which the store gets besides.
  let loop : Closure α :=
    ⟨[⟨site 4, "arr"⟩, ⟨site 5, made⟩], loopBody labels made next, s.frames.size⟩
  obtain ⟨ρ, hrenamed, hagrees⟩ :=
    (hs.sound.renamed le_rfl le_rfl (Footprint.refl s)).beside hs.sound
      (footprint_withLoop s frame (parameters.zip arguments) loop)
  have hkeeps := (Store.renumbering_past s s).keeps.of_agrees hagrees
  have hparallel : Parallel _ function function ρ s _ := {
    reachable := hs
    renamed := hrenamed
    output := s.output_enter frame (parameters.zip arguments)
    kept := .refl _
    admits := hfunction
    function_eq := hkeeps.rename_eq_self hfunction }
  obtain ⟨ρ', after', hcall, hrenamed', houtput, hagrees'⟩ :=
    hturn.call_loop (hstart.loopAt (site 4) (site 5) labels) hmade (site 7) hparallel hvalue
      helements hsize (show limit + elements.length < depth by omega) hrun
  refine ⟨ρ', after', ?_, hrenamed', houtput, hkeeps.of_agrees hagrees'⟩
  have hsame : elements.map (Value.rename ρ.reference) = elements :=
    (List.map_congr_left fun element h => hkeeps.rename_eq_self (helements element h)).trans
      (List.map_id' _)
  rw [hsame, hkeeps.rename_eq_self hvalue] at hcall
  rw [Run.call_function hclosure hlength, Run.untilReturn_apply, hstart.eval_startLoop, hcall,
    Option.map_some]
  exact congrArg (fun result => some (result, after'))
    (atCall_of_settles (settles_call depth (site 7) _ _) hcall)

end Grammar

end Scriptlet
