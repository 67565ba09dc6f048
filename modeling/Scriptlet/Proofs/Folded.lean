import Scriptlet.Proofs.Loops
import Scriptlet.Proofs.Shape

/-! # Functions on arrays

`map` and `reduce` are functions of the language, defined by loops. A call of `map` is the calls of
its function on the elements, one after the other, and a call of `reduce` is their left fold. Which
frames and functions there are besides makes no difference.
-/

namespace Scriptlet.Grammar

variable {α : Type}

/-! ### The code -/

def mapSource : String :=
  "let map = fn(arr, f) \x7b
  let iter = fn(arr, accumulated) \x7b
    if (len(arr) == 0) \x7b
      accumulated
    \x7d else \x7b
      iter(rest(arr), push(accumulated, f(first(arr))));
    \x7d
  \x7d;
  iter(arr, []);
\x7d;
"

def reduceSource : String :=
  "let reduce = fn(arr, initial, f) \x7b
  let iter = fn(arr, result) \x7b
    if (len(arr) == 0) \x7b
      result
    \x7d else \x7b
      iter(rest(arr), f(result, first(arr)));
    \x7d
  \x7d;
  iter(arr, initial);
\x7d;
"

section Code

variable (site : Nat → α)

/-- The call of the function, at site 0, with what is made so far if it is to get that. -/
def callOfFunction (arguments : List (Expr α)) : Expr α :=
  .call (site 0) (.name (site 1) "f")
    (arguments ++ [.call (site 2) (.name (site 3) "first") [.name (site 4) "arr"]])

def mapNext : Expr α :=
  .call (site 5) (.name (site 6) "push")
    [.name (site 7) "accumulated", callOfFunction site []]

def reduceNext : Expr α :=
  callOfFunction site [.name (site 5) "result"]

end Code

/-- The definition of a function that starts a loop. -/
def definition (name : String) (parameters : List String) (made : String)
    (next start : Expr Unit) : Stmt Unit :=
  .bind () ⟨(), name⟩ (.function () (parameters.map (⟨(), ·⟩))
    (startLoop (fun _ => ()) made (loopBody (fun _ => ()) made next) start))

def mapDefinition : Stmt Unit :=
  definition "map" ["arr", "f"] "accumulated" (mapNext fun _ => ()) (.array () [])

def reduceDefinition : Stmt Unit :=
  definition "reduce" ["arr", "initial", "f"] "result" (reduceNext fun _ => ())
    (.name () "initial")

theorem bareStatements_mapSource : bareStatements mapSource = [mapDefinition] :=
  bareStatements_eq_singleton (by decide +kernel) (by decide +kernel)

theorem bareStatements_reduceSource : bareStatements reduceSource = [reduceDefinition] :=
  bareStatements_eq_singleton (by decide +kernel) (by decide +kernel)

/-! ### Code of the same shape -/

/-- The labels of a loop, in the order of its sites. -/
theorem exists_of_bare_loopBody {block : Block α} {made : String} {next : Expr Unit}
    (h : block.relabel (fun _ => ()) = loopBody (fun _ => ()) made next) :
    ∃ (site : Nat → α) (turn : Expr α), turn.relabel (fun _ => ()) = next ∧
      block = loopBody site made turn := by
  simp only [loopBody, Block.bare_eq_iff, relabelStatements_bare_eq_cons_iff,
    relabelStatements_bare_eq_nil_iff, Stmt.bare_eq_expr_iff, Expr.bare_eq_branch_iff,
    Expr.bare_eq_binary_iff, Expr.bare_eq_call_iff, Expr.bare_eq_name_iff, Expr.bare_eq_int_iff,
    relabelAll_bare_eq_cons_iff, relabelAll_bare_eq_nil_iff, relabelAlternative_bare_eq_some_iff,
    existsAndEq, true_and, and_true, ← exists_and_right, ← exists_and_left] at h
  obtain ⟨l₀, l₁, l₂, l₁₁, l₁₂, l₁₃, turn, l₁₅, l₁₇, l₁₆, l₁₄, l₈, l₉, l₁₀, l₃, l₇, l₄, l₆, l₅,
    hturn, rfl⟩ := h
  let labels := [l₀, l₁, l₂, l₃, l₄, l₅, l₆, l₇, l₈, l₉, l₁₀, l₁₁, l₁₂, l₁₃, l₁₄, l₁₅, l₁₆, l₁₇]
  exact ⟨fun place => labels.getD place l₀, turn, hturn, rfl⟩

theorem exists_of_bare_startLoop {block : Block α} {made : String} {body : Block Unit}
    {start : Expr Unit}
    (h : block.relabel (fun _ => ()) = startLoop (fun _ => ()) made body start) :
    ∃ (site : Nat → α) (inner : Block α) (first : Expr α), inner.relabel (fun _ => ()) = body ∧
      first.relabel (fun _ => ()) = start ∧ block = startLoop site made inner first := by
  simp only [startLoop, Block.bare_eq_iff, relabelStatements_bare_eq_cons_iff,
    relabelStatements_bare_eq_nil_iff, Stmt.bare_eq_bind_iff, Stmt.bare_eq_expr_iff,
    Expr.bare_eq_function_iff, Expr.bare_eq_call_iff, Expr.bare_eq_name_iff, Ident.bare_eq_iff,
    relabelAll_bare_eq_cons_iff, relabelAll_bare_eq_nil_iff, List.map_eq_cons_iff,
    List.map_eq_nil_iff, existsAndEq, true_and, and_true, ← exists_and_right,
    ← exists_and_left] at h
  obtain ⟨l₀, l₆, l₇, first, l₉, l₈, l₁, inner, l₃, l₅, l₄, l₂, ⟨hinner, hfirst⟩, rfl⟩ := h
  let labels := [l₀, l₁, l₂, l₃, l₄, l₅, l₆, l₇, l₈, l₉]
  exact ⟨fun place => labels.getD place l₀, inner, first, hinner, hfirst, rfl⟩

theorem exists_of_bare_mapNext {expr : Expr α}
    (h : expr.relabel (fun _ => ()) = mapNext fun _ => ()) :
    ∃ site : Nat → α, expr = mapNext site := by
  simp only [mapNext, callOfFunction, List.nil_append, Expr.bare_eq_call_iff,
    Expr.bare_eq_name_iff, relabelAll_bare_eq_cons_iff, relabelAll_bare_eq_nil_iff, existsAndEq,
    true_and, ← exists_and_right, ← exists_and_left] at h
  obtain ⟨l₅, l₀, l₂, l₄, l₃, l₁, l₇, l₆, rfl⟩ := h
  exact ⟨fun place => [l₀, l₁, l₂, l₃, l₄, l₅, l₆, l₇].getD place l₀, rfl⟩

theorem exists_of_bare_reduceNext {expr : Expr α}
    (h : expr.relabel (fun _ => ()) = reduceNext fun _ => ()) :
    ∃ site : Nat → α, expr = reduceNext site := by
  simp only [reduceNext, callOfFunction, List.singleton_append, Expr.bare_eq_call_iff,
    Expr.bare_eq_name_iff, relabelAll_bare_eq_cons_iff, relabelAll_bare_eq_nil_iff, existsAndEq,
    true_and, ← exists_and_right, ← exists_and_left] at h
  obtain ⟨l₀, l₂, l₄, l₃, l₅, l₁, rfl⟩ := h
  exact ⟨fun place => [l₀, l₁, l₂, l₃, l₄, l₅].getD place l₀, rfl⟩

/-! ### What the turns do -/

theorem InLoop.eval_first {s : Store α} {frame loop limit : Nat} {made : String}
    {value function first : Value} {rest : List Value}
    (h : InLoop s frame made (first :: rest) value function loop) (site : Nat → α) :
    (Expr.call (site 2) (.name (site 3) "first") [.name (site 4) "arr"]).eval (Run.call limit)
      frame s = some (.ok first, s) :=
  h.eval_ofArray limit (site 2) (site 3) (site 4) (show "first" ∈ loopNames by decide) rfl
    (by decide) rfl

theorem turn_mapNext (site : Nat → α) :
    Turn "accumulated" (mapNext site) fun limit function made first =>
      Run.call limit (site 0) function [first] >>= fun value =>
        Run.call limit (site 5) (.builtin .push) [made, value] where
  eval {s frame loop made function first rest} h limit := by
    have hcall : (callOfFunction site []).eval (Run.call limit) frame s
        = Run.call limit (site 0) function [first] s :=
      eval_call_one (site 0) (eval_of_lookup (site 1) h.function) (h.eval_first site)
    have hpush : (Expr.name (site 6) "push").eval (Run.call limit) frame s
        = some (.ok (.builtin .push), s) := h.eval_free (site 6) (by decide) rfl
    rw [mapNext, eval_call_pair (site 5) hpush (eval_of_lookup (site 7) h.value), Run.bind_apply,
      hcall, ← Run.bind_apply]
  follows ρ limit function made first :=
    (follows_call ρ limit (site 0) function [first]).bind fun value =>
      follows_call ρ limit (site 5) (.builtin .push) [made, value]
  effect limit function made first :=
    (effect_call limit (site 0) function [first]).bind fun value =>
      effect_call limit (site 5) (.builtin .push) [made, value]
  stays hs hfunction hmade hfirst limit := by
    refine (stays_call limit (site 0) _ _ _ hs hfunction
      (List.forall_mem_singleton.mpr hfirst)).bind fun value t ht hvalue => ?_
    refine stays_call limit (site 5) _ _ t ht.reachable (.builtin _) ?_
    exact List.forall_mem_cons.mpr ⟨ht.admits hmade, List.forall_mem_singleton.mpr hvalue⟩
  grows hle function made first :=
    (extends_call hle (site 0) function [first]).bind fun value =>
      extends_call hle (site 5) (.builtin .push) [made, value]
  settles limit function made first :=
    (settles_call limit (site 0) function [first]).bind fun value =>
      settles_call limit (site 5) (.builtin .push) [made, value]

theorem turn_reduceNext (site : Nat → α) :
    Turn "result" (reduceNext site) fun limit function made first =>
      Run.call limit (site 0) function [made, first] where
  eval h limit := by
    rw [reduceNext, callOfFunction, List.singleton_append,
      eval_call_pair (site 0) (eval_of_lookup (site 1) h.function)
        (eval_of_lookup (site 5) h.value), Run.bind_of_ok (h.eval_first site)]
  follows ρ limit function made first := follows_call ρ limit (site 0) function [made, first]
  effect limit function made first := effect_call limit (site 0) function [made, first]
  stays hs hfunction hmade hfirst limit := stays_call limit (site 0) _ _ _ hs hfunction
    (List.forall_mem_cons.mpr ⟨hmade, List.forall_mem_singleton.mpr hfirst⟩)
  grows hle function made first := extends_call hle (site 0) function [made, first]
  settles limit function made first := settles_call limit (site 0) function [made, first]

/-- The calls on all elements make the array that is pushed together from what each one makes. -/
theorem foldlM_push (call : Value → Run α Value) (limit : Nat) (site : α) (elements : List Value) :
    ∀ done : List Value,
      (elements.foldlM (fun made first => call first >>= fun value =>
          Run.call limit site (.builtin .push) [made, value]) (.array done) : Run α Value)
        = elements.mapM call >>= fun results => pure (.array (done ++ results)) := by
  induction elements with
  | nil =>
    intro done
    rw [List.foldlM_nil, List.mapM_nil, pure_bind, List.append_nil]
  | cons first rest ih =>
    intro done
    have hpush (value : Value) : Run.call limit site (.builtin .push) [.array done, value]
        = pure (.array (done ++ [value])) := by
      rw [Run.call]
      rfl
    simp only [List.foldlM_cons, List.mapM_cons, bind_assoc, pure_bind, hpush, ih,
      List.append_assoc, List.singleton_append]

/-! ### Stores with the definitions -/

/-- The statement was evaluated in the global frame, with this value, and then the store came of
it. -/
def Evaluated (stmt : Stmt Unit) (store : Store α) (value : Value) : Prop :=
  ∃ (labelled : Stmt α) (limit : Nat) (before after : Store α),
    labelled.relabel (fun _ => ()) = stmt ∧
      labelled.eval (Run.call limit) Store.globalFrame before = some (.ok value, after) ∧
      after.Leads .any store

theorem Evaluated.reachable {stmt : Stmt Unit} {store : Store α} {value : Value}
    (h : Evaluated stmt store value) : store.Reachable .any := by
  obtain ⟨_, _, _, _, _, _, hleads⟩ := h
  exact hleads.reachable

/-- Code that is evaluated to its end has all its statements evaluated. -/
theorem exists_evaluated {stmts : List (Stmt α)} {limit : Nat} {value : Value} {store : Store α}
    {stmt : Stmt Unit} (hstmt : stmt ∈ relabelStatements (fun _ => ()) stmts) :
    ∀ {last : Value} {before : Store α}, before.Reachable .any →
      evalStatements (Run.call limit) Store.globalFrame last stmts before
        = some (.ok value, store) →
      ∃ result, Evaluated stmt store result := by
  induction stmts with
  | nil => cases hstmt
  | cons first rest ih =>
    intro last before hbefore hrun
    rw [evalStatements, Run.bind_apply, Option.bind_eq_some_iff] at hrun
    obtain ⟨⟨result | result, after⟩, hfirst, hrest⟩ := hrun
    · cases hrest
    · have hstays := first.stays (stays_call_of_code limit) (fun _ _ => trivial) hbefore
        hbefore.globalFrame_lt
      have hafter := (hstays.leads hfirst).reachable
      rcases List.mem_cons.mp hstmt with rfl | hstmt
      · have hothers : (evalStatements (Run.call limit) Store.globalFrame result rest).Stays .any
            after fun value t => t.Admits .any value :=
          stays_evalStatements (stays_call_of_code limit) rest (fun _ _ => trivial) hafter
            hafter.globalFrame_lt (hstays _ _ hfirst).2
        exact ⟨result, first, limit, before, after, rfl, hfirst, hothers.leads hrest⟩
      · exact ih hstmt hafter hrest

theorem Evaluated.exists_closure {store : Store α} {function : Value} {name made : String}
    {parameters : List String} {next start : Expr Unit}
    (h : Evaluated (definition name parameters made next start) store function) :
    ∃ (reference : Nat) (idents : List (Ident α)) (site labels : Nat → α) (turn first : Expr α),
      function = .function reference ∧ idents.map (·.name) = parameters ∧
        turn.relabel (fun _ => ()) = next ∧ first.relabel (fun _ => ()) = start ∧
        store.closures[reference]? = some
          ⟨idents, startLoop site made (loopBody labels made turn) first, Store.globalFrame⟩ := by
  obtain ⟨stmt, limit, before, after, hshape, hrun, hleads⟩ := h
  simp only [definition, Stmt.bare_eq_bind_iff, Expr.bare_eq_function_iff, Ident.bare_eq_iff,
    existsAndEq, true_and, and_true, ← exists_and_right, ← exists_and_left] at hshape
  obtain ⟨label, idents, block, label', label'', ⟨hparameters, hblock⟩, rfl⟩ := hshape
  obtain ⟨site, body, first, hbody, hfirst, rfl⟩ := exists_of_bare_startLoop hblock
  obtain ⟨labels, turn, hturn, rfl⟩ := exists_of_bare_loopBody hbody
  obtain ⟨changes, rfl⟩ := hleads.history
  cases hrun
  refine ⟨_, idents, site, labels, turn, first, rfl, ?_, hturn, hfirst, ?_⟩
  · have hnames := congrArg (List.map (·.name)) hparameters
    simpa [Function.comp_def, Ident.relabel] using hnames
  · exact (Store.footprint_replay _ changes).closures _ _ Array.getElem?_push_size

/-! ### What the parameters mean -/

/-- The argument that the last parameter of this name is bound to. -/
def argument? (parameters : List String) (arguments : List Value) (name : String) : Option Value :=
  ((parameters.zip arguments).reverse.find? (·.1 = name)).map (·.2)

theorem lookup_enter_zip {store : Store α} {frame : Nat} (hframe : frame < store.frames.size)
    (idents : List (Ident α)) (arguments : List Value) (name : String) :
    (store.enter frame (idents.zip arguments)).lookup store.frames.size name
      = (argument? (idents.map (·.name)) arguments name).or (store.lookup frame name) := by
  have hzip : (idents.map (·.name)).zip arguments
      = (idents.zip arguments).map fun binding => (binding.1.name, binding.2) := by
    rw [List.zip_map_left]
    rfl
  rw [Store.lookup_enter hframe, argument?, hzip, ← List.map_reverse, List.find?_map,
    Option.map_map]
  rfl

theorem atStart_enter {store : Store α} {frame : Nat} {idents : List (Ident α)}
    {arguments elements : List Value} {function value : Value} {start : Expr α}
    (hframe : frame < store.frames.size)
    (hfree : ∀ name ∈ loopNames, store.lookup frame name = none)
    (hother : ∀ name ∈ loopNames, argument? (idents.map (·.name)) arguments name = none)
    (harray : argument? (idents.map (·.name)) arguments "arr" = some (.array elements))
    (hfunction : argument? (idents.map (·.name)) arguments "f" = some function)
    (hstart : ∀ (limit : Nat) (t : Store α),
      (∀ name value, name ≠ "iter" → argument? (idents.map (·.name)) arguments name = some value →
        t.lookup store.frames.size name = some value) →
      start.eval (Run.call limit) store.frames.size t = some (.ok value, t)) :
    AtStart (store.enter frame (idents.zip arguments)) store.frames.size elements function start
      value where
  frame_lt := store.size_frames_enter frame _ ▸ Nat.lt_succ_self _
  array := by rw [lookup_enter_zip hframe, harray, Option.some_or]
  function := by rw [lookup_enter_zip hframe, hfunction, Option.some_or]
  free name hname := by
    rw [lookup_enter_zip hframe, hother name hname, Option.none_or, hfree name hname]
  start limit t ht := hstart limit t fun name value hname hvalue => by
    rw [ht name hname, lookup_enter_zip hframe, hvalue, Option.some_or]

/-! ### Calls -/

/-- A call of the name `f` stands at this site in the code of the function. -/
def CallsAt (store : Store α) (function : Value) (site : α) : Prop :=
  ∃ (reference : Nat) (closure : Closure α) (label : α) (arguments : List (Expr α)),
    function = .function reference ∧ store.closures[reference]? = some closure ∧
      .expr (.call site (.name label "f") arguments) ∈ closure.body.nodes

theorem callsAt_of_turn {store : Store α} {reference frame : Nat} {idents : List (Ident α)}
    {site labels sites : Nat → α} {made : String} {turn start : Expr α}
    {arguments : List (Expr α)} (hclosure : store.closures[reference]?
      = some ⟨idents, startLoop site made (loopBody labels made turn) start, frame⟩)
    (h : .expr (callOfFunction sites arguments) ∈ turn.nodes) :
    CallsAt store (.function reference) (sites 0) := by
  have hnode : .expr (callOfFunction sites arguments)
      ∈ (startLoop site made (loopBody labels made turn) start).nodes := by
    simp [startLoop, loopBody, Block.nodes, Stmt.nodes, Expr.nodes, nodesOfStatements, nodesOfAll,
      nodesOfAlternative, h]
  exact ⟨reference, _, sites 1, _, rfl, hclosure, hnode⟩

section Calls

variable {store : Store α} (hfree : ∀ name ∈ loopNames, store.lookup Store.globalFrame name = none)

include hfree

theorem Evaluated.call_map {map : Value} (h : Evaluated mapDefinition store map) :
    ∃ site, CallsAt store map site ∧ ∀ {function : Value} {elements : List Value}
      {limit limit' : Nat} (callSite : α) {result : Except (Interrupt α) (List Value)}
      {after : Store α}, store.Admits .any function →
      (∀ element ∈ elements, store.Admits .any element) → elements.length < 2 ^ 64 →
      limit + elements.length + 1 < limit' →
      (elements.mapM fun first => Run.call limit site function [first]) store
        = some (result, after) →
      EndsLike store (Run.call limit' callSite map [.array elements, function] store)
        (result.map .array) after := by
  have hstore := h.reachable
  obtain ⟨reference, idents, site, labels, turn, start, rfl, hnames, hturn, hstart, hclosure⟩ :=
    h.exists_closure
  obtain ⟨sites, rfl⟩ := exists_of_bare_mapNext hturn
  obtain ⟨parts, hparts, label, rfl⟩ := Expr.bare_eq_array_iff.mp hstart
  obtain rfl := relabelAll_bare_eq_nil_iff.mp hparts
  have hnode : .expr (callOfFunction sites []) ∈ (mapNext sites).nodes := by
    simp [mapNext, Expr.nodes, nodesOfAll, callOfFunction]
  refine ⟨sites 0, callsAt_of_turn hclosure hnode, ?_⟩
  intro function elements limit limit' callSite result after hfunction helements hsize hlimit hrun
  have hatStart : AtStart (store.enter Store.globalFrame (idents.zip [.array elements, function]))
      store.frames.size elements function (.array label []) (.array []) := by
    refine atStart_enter hstore.globalFrame_lt hfree ?_ ?_ ?_ fun _ _ _ => rfl
    · simp [hnames, loopNames, argument?]
    · simp [hnames, argument?]
    · simp [hnames, argument?]
  have hlength : idents.length = [Value.array elements, function].length := by
    simpa using congrArg List.length hnames
  refine (turn_mapNext sites).call_startLoop (by decide) hstore hclosure hlength hatStart
    hfunction (.array (List.forall_mem_nil _)) helements hsize hlimit callSite ?_
  rw [foldlM_push, Run.bind_apply, hrun]
  cases result <;> rfl

theorem Evaluated.call_reduce {reduce : Value} (h : Evaluated reduceDefinition store reduce) :
    ∃ site, CallsAt store reduce site ∧ ∀ {function initial : Value} {elements : List Value}
      {limit limit' : Nat} (callSite : α) {result : Except (Interrupt α) Value}
      {after : Store α}, store.Admits .any function → store.Admits .any initial →
      (∀ element ∈ elements, store.Admits .any element) → elements.length < 2 ^ 64 →
      limit + elements.length + 1 < limit' →
      (elements.foldlM (fun made first => Run.call limit site function [made, first]) initial) store
        = some (result, after) →
      EndsLike store (Run.call limit' callSite reduce [.array elements, initial, function] store)
        result after := by
  have hstore := h.reachable
  obtain ⟨reference, idents, site, labels, turn, start, rfl, hnames, hturn, hstart, hclosure⟩ :=
    h.exists_closure
  obtain ⟨sites, rfl⟩ := exists_of_bare_reduceNext hturn
  obtain ⟨label, rfl⟩ := Expr.bare_eq_name_iff.mp hstart
  refine ⟨sites 0, callsAt_of_turn hclosure (Expr.mem_nodes _), ?_⟩
  intro function initial elements limit limit' callSite result after hfunction hinitial helements
    hsize hlimit hrun
  have hatStart : AtStart
      (store.enter Store.globalFrame (idents.zip [.array elements, initial, function]))
      store.frames.size elements function (.name label "initial") initial := by
    refine atStart_enter hstore.globalFrame_lt hfree ?_ ?_ ?_ fun limit t ht => ?_
    · simp [hnames, loopNames, argument?]
    · simp [hnames, argument?]
    · simp [hnames, argument?]
    · exact eval_of_lookup label (ht "initial" initial (by decide) (by simp [hnames, argument?]))
  have hlength : idents.length = [Value.array elements, initial, function].length := by
    simpa using congrArg List.length hnames
  exact (turn_reduceNext sites).call_startLoop (by decide) hstore hclosure hlength hatStart
    hfunction hinitial helements hsize hlimit callSite hrun

end Calls

/-- Both definitions were evaluated, in any order and with anything before, between and after. -/
structure Defined (store : Store α) (map reduce : Value) : Prop where
  map : ∃ stmt, bareStatements mapSource = [stmt] ∧ Evaluated stmt store map
  reduce : ∃ stmt, bareStatements reduceSource = [stmt] ∧ Evaluated stmt store reduce

/-- A text that has both definitions leaves a store in which they were evaluated. -/
theorem exists_defined {source : String} {limit : Nat} {last value : Value}
    {before store : Store Token} (hbefore : before.Reachable .any)
    (hmap : bareStatements mapSource ⊆ bareStatements source)
    (hreduce : bareStatements reduceSource ⊆ bareStatements source)
    (hrun : evalStatements (Run.call limit) Store.globalFrame last
      (Program.ofSource source).statements before = some (.ok value, store)) :
    ∃ map reduce, Defined store map reduce := by
  rw [bareStatements_mapSource] at hmap
  rw [bareStatements_reduceSource] at hreduce
  obtain ⟨map, hmap⟩ := exists_evaluated (hmap List.mem_cons_self) hbefore hrun
  obtain ⟨reduce, hreduce⟩ := exists_evaluated (hreduce List.mem_cons_self) hbefore hrun
  exact ⟨map, reduce, ⟨_, bareStatements_mapSource, hmap⟩,
    ⟨_, bareStatements_reduceSource, hreduce⟩⟩

/-- A call of `map` makes the array of what the calls of its function give, and a call of `reduce`
makes the left fold of such calls. The first call that fails ends them, and its failure is their
own. They write what the calls write, and leave what these leave but for the numbers of frames and
functions that are new. No array is so long that its length wraps around. -/
theorem Defined.folds {store : Store α} {map reduce : Value} (h : Defined store map reduce)
    (hfree : ∀ name ∈ loopNames, store.lookup Store.globalFrame name = none) :
    ∃ site site', CallsAt store map site ∧ CallsAt store reduce site' ∧
      ∀ {function initial : Value} {elements : List Value} {limit limit' : Nat} (callSite : α)
        {after : Store α}, store.Admits .any function → store.Admits .any initial →
        (∀ element ∈ elements, store.Admits .any element) → elements.length < 2 ^ 64 →
        limit + elements.length + 1 < limit' →
        (∀ result, (elements.mapM fun first => Run.call limit site function [first]) store
            = some (result, after) →
          EndsLike store (Run.call limit' callSite map [.array elements, function] store)
            (result.map .array) after) ∧
        ∀ result, (elements.foldlM
            (fun made first => Run.call limit site' function [made, first]) initial) store
            = some (result, after) →
          EndsLike store
            (Run.call limit' callSite reduce [.array elements, initial, function] store) result
            after := by
  obtain ⟨stmt, hstmt, hmap⟩ := h.map
  obtain ⟨stmt', hstmt', hreduce⟩ := h.reduce
  cases bareStatements_mapSource.symm.trans hstmt
  cases bareStatements_reduceSource.symm.trans hstmt'
  obtain ⟨site, hsite, hmap⟩ := hmap.call_map hfree
  obtain ⟨site', hsite', hreduce⟩ := hreduce.call_reduce hfree
  refine ⟨site, site', hsite, hsite', ?_⟩
  intro function initial elements limit limit' callSite after hfunction hinitial helements hsize
    hlimit
  exact ⟨fun result => hmap callSite hfunction helements hsize hlimit,
    fun result => hreduce callSite hfunction hinitial helements hsize hlimit⟩

/-- A function that writes its argument, called by both. It takes one argument only, so that
`reduce` fails at once. -/
theorem Defined.folds_puts :
    let body : Block Unit := .mk () [.expr () (.call () (.name () "puts") [.name () "x"]),
      .expr () (.name () "x")]
    let shout : Stmt Unit := .bind () ⟨(), "shout"⟩ (.function () [⟨(), "x"⟩] body)
    let elements := [Value.string "a", .string "b"]
    ∃ store after : Store Unit,
      evalStatements (Run.call 0) Store.globalFrame .null [mapDefinition, reduceDefinition, shout]
          .initial = some (.ok (.function 2), store) ∧
        Defined store (.function 0) (.function 1) ∧
        (∀ name ∈ loopNames, store.lookup Store.globalFrame name = none) ∧
        (∀ value ∈ .function 2 :: .int 0 :: elements, store.Admits .any value) ∧
        after.output = "a\nb\n" ∧
        EndsLike store (Run.call 5 () (.function 0) [.array elements, .function 2] store)
          (.ok (.array elements)) after ∧
        EndsLike store (Run.call 5 () (.function 1) [.array elements, .int 0, .function 2] store)
          (.error (.failed (.wrongArity 1 2) ())) store := by
  intro body shout elements
  let next (stmt : Stmt Unit) (s : Store Unit) : Store Unit :=
    ((stmt.eval (Run.call 0) Store.globalFrame s).map (·.2)).getD s
  let first := next mapDefinition .initial
  let second := next reduceDefinition first
  let store := next shout second
  have hmap : mapDefinition.eval (Run.call 0) Store.globalFrame .initial
      = some (.ok (.function 0), first) := rfl
  have hreduce : reduceDefinition.eval (Run.call 0) Store.globalFrame first
      = some (.ok (.function 1), second) := rfl
  have hshout : shout.eval (Run.call 0) Store.globalFrame second
      = some (.ok (.function 2), store) := rfl
  have hstays (stmt : Stmt Unit) {s : Store Unit} (hs : s.Reachable .any) :=
    stmt.stays (stays_call_of_code 0) (fun _ _ => trivial) hs hs.globalFrame_lt
  have hfirst := ((hstays mapDefinition .initial).leads hmap).reachable
  have hsecond := (hstays reduceDefinition hfirst).leads hreduce
  have hstore := (hstays shout hsecond.reachable).leads hshout
  have hdefined : Defined store (.function 0) (.function 1) := {
    map := ⟨_, bareStatements_mapSource, mapDefinition, 0, _, _, Stmt.relabel_id _, hmap,
      hsecond.trans hstore⟩
    reduce := ⟨_, bareStatements_reduceSource, reduceDefinition, 0, _, _, Stmt.relabel_id _,
      hreduce, hstore⟩ }
  have hfree : ∀ name ∈ loopNames, store.lookup Store.globalFrame name = none := by decide +kernel
  have hfunction : store.Admits .any (.function 2) := .function (by decide)
  have helements : ∀ element ∈ elements, store.Admits .any element :=
    List.forall_mem_cons.mpr ⟨.string trivial, List.forall_mem_singleton.mpr (.string trivial)⟩
  have hadmits : ∀ value ∈ .function 2 :: .int 0 :: elements, store.Admits .any value :=
    List.forall_mem_cons.mpr ⟨hfunction, List.forall_mem_cons.mpr ⟨.int 0, helements⟩⟩
  have hcalls : ((elements.mapM fun first => Run.call 1 () (.function 2) [first]) store).map
      (fun ending => (ending.1.toOption, ending.2.output)) = some (some elements, "a\nb\n") := by
    decide +kernel
  obtain ⟨⟨result, after⟩, hcalls, hafter⟩ := Option.map_eq_some_iff.mp hcalls
  obtain ⟨hresult, houtput⟩ := Prod.mk.inj hafter
  obtain rfl : result = .ok elements := by
    cases result with
    | ok values => exact congrArg Except.ok (Option.some.inj hresult)
    | error interrupt => cases hresult
  have hcall : Run.call 1 () (.function 2) [.int 0, .string "a"] store
      = some (.error (.failed (.wrongArity 1 2) ()), store) := by
    rw [Run.call]
    rfl
  have hfold : elements.foldlM (fun made first => Run.call 1 () (.function 2) [made, first])
      (.int 0) store = some (.error (.failed (.wrongArity 1 2) ()), store) := by
    rw [List.foldlM_cons, Run.bind_of_error hcall]
  obtain ⟨site, site', -, -, h⟩ := hdefined.folds hfree
  exact ⟨store, after, rfl, hdefined, hfree, hadmits, houtput,
    (h () hfunction (.int 0) helements (by decide) (by decide)).1 _ hcalls,
    (h () hfunction (.int 0) helements (by decide) (by decide)).2 _ hfold⟩

end Scriptlet.Grammar
