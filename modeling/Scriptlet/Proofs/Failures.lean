import Scriptlet.Proofs.Labels
import Scriptlet.Proofs.Lines
import Scriptlet.Proofs.Soundness
import Scriptlet.Proofs.Tiling
import Scriptlet.Report.Plain

/-! # Where failures point

A program that fails points at one of its own expressions, and what stands in the source there shows
the fault: the name that is not bound, the operator, or the parenthesis of the call. This is so
also where the failure comes out of calls of functions within functions: all code that can be called
comes from the one source.
-/

namespace Scriptlet

open Text

namespace Token

/-- A token that is always written the same way covers this text. -/
theorem literal_of_text? {source : String} {token : Token} (h : token ∈ stream source)
    {text : String} (htext : token.kind.text? = some text) : token.literal = text := by
  have hproper := proper_of_mem_stream h
  obtain ⟨kind, literal, span⟩ := token
  rcases hproper with rfl | hproper
  · cases htext
  · cases kind <;> first | cases htext; done | exact Option.some.inj (hproper.symm.trans htext)

/-- A token covers a slice of the source, which is its literal unless the token is a string. -/
theorem exists_slice_of_mem {source : String} (hsize : byteLength source.toList < 2 ^ 32)
    {token : Token} (h : token ∈ stream source) :
    ∃ piece, IsSlice source.toList token.span.start.toNat token.span.stop piece ∧
      (token.kind ≠ .string → piece = token.literal.toList) := by
  have htiles : TilesFrom source.toList 0 (stream source) :=
    tilesFrom_streamFrom source.toList [] hsize
  obtain ⟨piece, hslice, hwritten, -⟩ := htiles.exists_slice hsize token h
  refine ⟨piece, hslice, fun hkind => ?_⟩
  rwa [Kind.Written, if_neg hkind] at hwritten

end Token

namespace Grammar

/-! ### Code of one program -/

/-- The nodes of some statements, and all strings. -/
def codeOf {α : Type} (stmts : List (Stmt α)) : Material α :=
  ⟨(· ∈ nodesOfStatements stmts), fun _ => True, fun _ _ _ => trivial, fun _ _ _ _ => trivial⟩

theorem Program.raises_of_run {program : Program Token} (herrors : program.errors = [])
    {limit : Nat} {failure : Failure} {store : Store Token}
    (hrun : program.run limit Store.globalFrame .initial = some (.error failure, store)) :
    ∃ expr, .expr expr ∈ nodesOfStatements program.statements ∧
      failure.span = expr.label.span ∧ failure.fault.Fits expr := by
  rw [Program.run, herrors] at hrun
  have hstays := stays_evalStatements (m := codeOf program.statements) (stays_call_of_code limit)
    program.statements (fun _ hnode => hnode) .initial Nat.one_pos .null
  obtain ⟨site, hspan, expr, hcode, hlabel, hfits⟩ := raises_of_finish hstays hrun
  exact ⟨expr, hcode, hspan.trans (congrArg Token.span hlabel.symm), hfits⟩

theorem UnaryOp.text?_kind (op : UnaryOp) : op.kind.text? = some op.symbol := by
  cases op <;> rfl

theorem BinaryOp.text?_of_kind {kind : Token.Kind} {op : BinaryOp}
    (h : Suffix.ofKind? kind = some (.binary op)) : kind.text? = some op.symbol := by
  cases kind <;> cases h <;> rfl

end Grammar

open Grammar

/-! ### The text at a failure -/

/-- What stands in the source where the fault is raised. -/
def Fault.text? : Fault → Option String
  | unknownName name => some name
  | unknownUnary op _ => some op.symbol
  | unknownBinary op _ => some op.symbol
  | divisionByZero _ => some BinaryOp.divide.symbol
  | wrongArity _ _ => some "("
  | typeMismatch _ _ | malformed _ => none

/-- The label of the expression that raises a fault is the text that belongs to the fault. -/
theorem Fault.Fits.literal_eq {source : String} {expr : Expr Token} {fault : Fault} {text : String}
    (h : fault.Fits expr) (hsigned : (Node.expr expr).Signed (· ∈ Token.stream source))
    (htext : fault.text? = some text) :
    expr.label.literal = text ∧ expr.label.kind ≠ .string := by
  obtain ⟨htoken, hkind⟩ := hsigned
  have hfixed {text : String} (hfixed : expr.label.kind.text? = some text) :
      expr.label.literal = text ∧ expr.label.kind ≠ .string :=
    ⟨Token.literal_of_text? htoken hfixed, fun heq => by simp [heq, Token.Kind.text?] at hfixed⟩
  cases fault with
  | unknownName name =>
    obtain ⟨label, rfl⟩ := h
    cases htext
    exact ⟨hkind.2, fun heq => by cases hkind.1.symm.trans heq⟩
  | unknownUnary op operand =>
    obtain ⟨-, label, inner, rfl⟩ := h
    cases htext
    exact hfixed ((congrArg Token.Kind.text? hkind).trans op.text?_kind)
  | unknownBinary op operands =>
    obtain ⟨label, lhs, rhs, rfl⟩ := h
    cases htext
    exact hfixed (BinaryOp.text?_of_kind hkind)
  | divisionByZero dividend =>
    obtain ⟨label, lhs, rhs, rfl⟩ := h
    cases htext
    exact hfixed (BinaryOp.text?_of_kind hkind)
  | wrongArity expected actual =>
    obtain ⟨-, label, callee, arguments, rfl⟩ := h
    cases htext
    exact hfixed (congrArg Token.Kind.text? hkind)
  | typeMismatch expected actual => cases htext
  | malformed errors => cases htext

/-- The failure points at an expression of the program: at the piece of the source that stands
between `before` and `after`. -/
structure Failure.PointsAt (failure : Failure) (source : String) (expr : Expr Token)
    (before piece after : List Char) : Prop where
  node : .expr expr ∈ nodesOfStatements (Program.ofSource source).statements
  span : failure.span = expr.label.span
  fits : failure.fault.Fits expr
  evaluated : ∀ errors, failure.fault ≠ .malformed errors
  split : source.toList = before ++ (piece ++ after)
  start : byteLength before = failure.span.start.toNat
  stop : failure.span.start.toNat + byteLength piece = failure.span.stop
  text : ∀ text, failure.fault.text? = some text → piece = text.toList
  line : failure.plain (.ofString source)
    = "[line " ++ toString (1 + before.count '\n') ++ "] ERROR: " ++ failure.fault.message

/-- A program that fails in a fresh store points at what failed. -/
theorem pointsAt_of_run {source : String} (hsize : byteLength source.toList < 2 ^ 32 - 1)
    (herrors : (Program.ofSource source).errors = []) {limit : Nat} {failure : Failure}
    {store : Store Token}
    (hrun : (Program.ofSource source).run limit Store.globalFrame .initial
      = some (.error failure, store)) :
    ∃ expr before piece after, failure.PointsAt source expr before piece after := by
  obtain ⟨expr, hnode, hspan, hfits⟩ := Program.raises_of_run herrors hrun
  have hsigned := Program.signed_ofSource herrors _ hnode
  obtain ⟨piece, ⟨before, after, hsource, hstart, hstop⟩, hpiece⟩ :=
    Token.exists_slice_of_mem (by omega) hsigned.1
  refine ⟨expr, before, piece, after, {
    node := hnode
    span := hspan
    fits := hfits
    evaluated := fun errors heq => by rwa [heq] at hfits
    split := hsource
    start := hspan ▸ hstart
    stop := hspan ▸ hstop
    text := fun text htext => ?_
    line := ?_ }⟩
  · obtain ⟨hliteral, hkind⟩ := hfits.literal_eq hsigned htext
    rw [hpiece hkind, hliteral]
  · rw [Failure.plain, Lines.tag, Lines.ofString, hspan, ← hstart, hsource, Lines.lineAt_ofText]
    simp only [String.append_assoc]
    rfl

/-- The failure that a run ends in. -/
def failure? : Option (Except Failure Value × Store Token) → Option Failure
  | some (.error failure, _) => some failure
  | _ => none

theorem exists_store_of_failure? {ending : Option (Except Failure Value × Store Token)}
    {failure : Failure} (h : failure? ending = some failure) :
    ∃ store, ending = some (.error failure, store) := by
  rcases ending with _ | ⟨_ | _, store⟩
  · cases h
  · cases h
    exact ⟨store, rfl⟩
  · cases h

/-- A name that is not bound, two calls deep, in the last line of a function that spans lines. -/
theorem pointsAt_of_run_nested :
    let source := "let f = fn(x) \x7b\n  x +\n  é\n\x7d;\nlet g = fn() \x7b f(1) \x7d;\ng()"
    byteLength source.toList < 2 ^ 32 - 1 ∧ (Program.ofSource source).errors = [] ∧
      ∃ (failure : Failure) (store : Store Token),
        (Program.ofSource source).run 2 Store.globalFrame .initial = some (.error failure, store) ∧
          failure.fault = .unknownName "é" ∧
          ∃ expr before piece after, failure.PointsAt source expr before piece after := by
  intro source
  have hsize : byteLength source.toList < 2 ^ 32 - 1 := by decide
  have herrors : (Program.ofSource source).errors = [] := by decide +kernel
  have hfailure : failure? ((Program.ofSource source).run 2 Store.globalFrame .initial)
      = some ⟨.unknownName "é", .ofBounds 24 26⟩ := by decide +kernel
  obtain ⟨store, hrun⟩ := exists_store_of_failure? hfailure
  exact ⟨hsize, herrors, _, store, hrun, rfl, pointsAt_of_run hsize herrors hrun⟩

/-- The first operand decides what is expected, so that a function can be expected and a built-in
one be found. -/
theorem mismatch_of_builtin :
    let source := "fn(x) \x7b x \x7d == len"
    byteLength source.toList < 2 ^ 32 - 1 ∧ (Program.ofSource source).errors = [] ∧
      ∃ (failure : Failure) (store : Store Token),
        (Program.ofSource source).run 0 Store.globalFrame .initial = some (.error failure, store) ∧
          ∃ expected actual, failure.fault = .typeMismatch expected actual ∧
            Value.Kind.function ∈ expected ∧ ¬(actual ≠ .function ∧ actual ≠ .builtin) := by
  intro source
  have hfailure : failure? ((Program.ofSource source).run 0 Store.globalFrame .initial)
      = some ⟨.typeMismatch [.function] .builtin, .ofBounds 12 14⟩ := by decide +kernel
  obtain ⟨store, hrun⟩ := exists_store_of_failure? hfailure
  exact ⟨by decide, by decide +kernel, _, store, hrun, _, _, rfl, by decide, by decide⟩

end Scriptlet
