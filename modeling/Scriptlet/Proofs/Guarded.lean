import Scriptlet.Proofs.Consumption
import Scriptlet.Proofs.SideBySide
import Scriptlet.Proofs.Sliced
import Scriptlet.Value.Builtin
import Scriptlet.Value.Operator

/-! # Operations that are guarded

Some operations have no result outside a domain: a look at the upcoming token where there is none, a
case that no token should come to, an argument behind the last, a division by zero. Each of them
stands behind a guard. For the parser the guards hold whatever expressions and programs were asked
for before, also where the answer was an error.
-/

namespace Scriptlet

namespace Grammar

open Cursor

/-! ### Requests to a parser -/

namespace Outcome

variable {s : Cursor} {α : Type}

def result : Outcome s α → Except Error α
  | ok value _ _ => .ok value
  | fail error _ _ => .error error

/-- Where reading goes on, behind the phrase or at the error. -/
def stop : Outcome s α → Cursor
  | ok _ rest _ | fail _ rest _ => rest

theorem Orderly.crosses_stop {x : Outcome s α} (hx : x.Orderly) : s.Crosses Grammatical x.stop := by
  cases x with
  | ok value rest shorter => exact hx
  | fail error rest within =>
    obtain ⟨r, hr, hstuck⟩ := hx
    exact hr.trans hstuck.crosses

theorem Orderly.stuck {x : Outcome s α} {error : Error} (hx : x.Orderly)
    (h : x.result = .error error) :
    ∃ r : Cursor, s.Crosses Grammatical r ∧ r.Stuck error x.stop := by
  cases x with
  | ok value rest shorter => cases h
  | fail other rest within =>
    cases h
    exact hx

end Outcome

/-- What a parser can be asked for, any number of times. -/
inductive Request where
  | expression | program
deriving DecidableEq, Repr

inductive Answer where
  | expression (result : Except Error (Expr Token))
  | program (result : Program Token)

def Answer.errors : Answer → List Error
  | expression (.ok _) => []
  | expression (.error error) => [error]
  | program result => result.errors

namespace Cursor

def answer (s : Cursor) : Request → Answer
  | .expression => .expression s.expression.result
  | .program => .program s.program.1

/-- Where the next request goes on. -/
def after (s : Cursor) : Request → Cursor
  | .expression => s.expression.stop
  | .program => s.program.2

def afterAll (s : Cursor) (requests : List Request) : Cursor :=
  requests.foldl after s

theorem crosses_after (s : Cursor) (request : Request) :
    s.Crosses (· ≠ .eof) (s.after request) := by
  cases request with
  | program => exact (crosses_program s).1
  | expression => exact (orderly_expressionAbove 0 s).crosses_stop.imp ne_eof_of_grammatical

theorem crosses_afterAll (s : Cursor) (requests : List Request) :
    s.Crosses (· ≠ .eof) (s.afterAll requests) := by
  induction requests generalizing s with
  | nil => exact .refl s
  | cons request rest ih => exact (crosses_after s request).trans (ih (s.after request))

theorem stuck_of_answer {s : Cursor} {request : Request} {error : Error}
    (h : error ∈ (s.answer request).errors) :
    ∃ r t : Cursor, s.Crosses (· ≠ .eof) r ∧ r.Stuck error t := by
  cases request with
  | program => exact (crosses_program s).2 error h
  | expression =>
    cases hresult : s.expression.result with
    | ok value =>
      rw [answer, hresult] at h
      cases h
    | error other =>
      rw [answer, hresult] at h
      cases List.mem_singleton.mp h
      obtain ⟨r, hr, hstuck⟩ := (orderly_expressionAbove 0 s).stuck hresult
      exact ⟨r, _, hr.imp ne_eof_of_grammatical, hstuck⟩

end Cursor

/-! ### Errors about a token -/

/-- The error says of the token that it is not what belongs in its place. -/
inductive Error.About (token : Token) : Error → Prop
  | unexpected {expected} : token.kind ≠ expected →
      About token ⟨.unexpected expected (some token.kind), token.span⟩
  | noExpression : token.kind ∉ starters → About token ⟨.noExpression token.kind, token.span⟩
  | integerTooLarge : token.kind = .int → integer? token.literal = none →
      About token ⟨.integerTooLarge token.literal, token.span⟩

theorem Error.About.problem_ne {token : Token} {error : Error} (h : error.About token)
    (expected : Token.Kind) : error.problem ≠ .unexpected expected none := by
  cases h <;> exact nofun

theorem Cursor.Stuck.about_of_peek? {s t : Cursor} {error : Error} {token : Token}
    (h : s.Stuck error t) (hpeek : s.peek? = some token) : error.About token := by
  cases h with
  | @unexpected expected hkind =>
    have hne : token.kind ≠ expected := by simpa [kind?, hpeek] using hkind
    have herror : s.unexpected expected = ⟨.unexpected expected (some token.kind), token.span⟩ := by
      simp [Cursor.unexpected, kind?, hpeek]
    exact herror ▸ .unexpected hne
  | noExpression hother hkind =>
    cases hpeek.symm.trans hother
    exact .noExpression hkind
  | integerTooLarge htakes hvalue =>
    cases hpeek.symm.trans (peek?_of_next? htakes.next?_eq)
    exact .integerTooLarge htakes.kind_eq hvalue

theorem Cursor.Stuck.about {s t : Cursor} {error : Error} (hs : s.Bounded) (h : s.Stuck error t) :
    ∃ token ∈ s.tokens, error.About token := by
  obtain ⟨token, htoken, hpeek⟩ := hs.exists_peek?
  exact ⟨token, htoken, h.about_of_peek? hpeek⟩

/-! ### Nothing looks behind the end of the input -/

/-- Two cursors in front of the same tokens, behind which there are more for one of them. -/
def Cursor.Continues (more : List Token) (s t : Cursor) : Prop :=
  s.Bounded ∧ t = ⟨s.tokens ++ more, s.depth⟩

theorem twin_continues (more : List Token) : Twin id (Continues more) (Continues more) where
  next := by
    rintro ⟨tokens, depth⟩ _ ⟨hbounded, rfl⟩
    cases tokens with
    | nil =>
      obtain ⟨_, htoken, _⟩ := hbounded
      cases htoken
    | cons first rest =>
      have hnext (hne : first.kind ≠ .eof) : Continues more ⟨rest, first.kind.depthAfter depth⟩
          ⟨rest ++ more, first.kind.depthAfter depth⟩ :=
        ⟨hbounded.of_crosses (.cons hne rest depth), rfl⟩
      refine ⟨first, _, _, rfl, rfl, fun hkind => hnext ?_, fun hstop => hnext ?_⟩
      · rw [hkind]
        decide
      · exact fun heof => hstop (heof ▸ by decide)
  depth := by
    rintro s _ ⟨-, rfl⟩
    rfl
  widen := id
  narrow := fun h _ => h

theorem Outcome.Agree.result_eq {s t : Cursor} {α : Type} {Then Else : Cursor → Cursor → Prop}
    {x : Outcome s α} {y : Outcome t α} (h : x.Agree id id Then Else y) : y.result = x.result := by
  cases x with
  | ok value rest shorter =>
    cases y with
    | ok value' rest' shorter' => exact congrArg Except.ok h.1
    | fail error' rest' within' => exact h.elim
  | fail error rest within =>
    cases y with
    | ok value' rest' shorter' => exact h.elim
    | fail error' rest' within' => exact congrArg Except.error h.1

/-- No answer depends on what would follow the end of the input. -/
theorem answer_append {s : Cursor} (hs : s.Bounded) (request : Request) (more : List Token) :
    Cursor.answer ⟨s.tokens ++ more, s.depth⟩ request = s.answer request := by
  have htwin := twin_continues more
  have hcontinues : Continues more s ⟨s.tokens ++ more, s.depth⟩ := ⟨hs, rfl⟩
  cases request with
  | program =>
    obtain ⟨shared, s', t', hleft, hright, hreached, hend⟩ := htwin.program _ _ hcontinues
    have hend' : t'.atEnd = true := by
      rw [htwin.atEnd_eq hreached]
      exact hend hreached
    simp only [answer, hleft, hright, Program.mapSpans_id, program_of_atEnd (hend hreached),
      program_of_atEnd hend']
  | expression =>
    have hagree := htwin.expressionAbove 0 s _ hcontinues
    have hlabel : Expr.relabel (Token.mapSpan id) = id := funext Expr.relabel_id
    rw [hlabel] at hagree
    exact congrArg Answer.expression hagree.result_eq

/-! ### Operands -/

section Operands

variable {s t : Cursor} (expr : Reader s.size (Expr Token))
  (inner : UnaryOp → Reader s.size (Expr Token))

/-- The operand that a token starts, if it starts one. -/
def operandFrom? (token : Token) (t : Cursor) (ht : t.size < s.size) :
    Option (Outcome s (Expr Token)) :=
  match token.kind with
  | .int =>
    match integer? token.literal with
    | some value => some (.ok (.int token value) t ht)
    | none => some (.fail ⟨.integerTooLarge token.literal, token.span⟩ t (within_of_lt ht))
  | .ident => some (.ok (.name token token.literal) t ht)
  | .string => some (.ok (.string token token.literal) t ht)
  | .trueWord => some (.ok (.bool token true) t ht)
  | .falseWord => some (.ok (.bool token false) t ht)
  | .bang => some (((inner .not t ht).map (.unary token .not ·)).after ht)
  | .minus => some (((inner .negate t ht).map (.unary token .negate ·)).after ht)
  | .leftParen =>
    some (((expr t ht).andThen fun value u hu =>
      ((u.expect .rightParen).map fun _ => value).after hu).after ht)
  | .ifWord => some ((branch expr token t ht).after ht)
  | .fnWord => some ((function expr token t ht).after ht)
  | .leftBracket => some (((list expr .rightBracket t ht).map (.array token ·)).after ht)
  | .leftBrace => some (((list (entry expr) .rightBrace t ht).map (.map token ·)).after ht)
  | _ => none

/-- An operand, taken up only where the upcoming token is one of the starters. -/
def operandOfStarter (s : Cursor) (expr : Reader s.size (Expr Token))
    (inner : UnaryOp → Reader s.size (Expr Token)) : Option (Outcome s (Expr Token)) :=
  match h : s.next? with
  | none => some (.fail (s.unexpected .eof) s s.within_self)
  | some (token, t) =>
    if token.kind ∈ starters then operandFrom? expr inner token t (size_lt_of_next? h)
    else some (.fail ⟨.noExpression token.kind, token.span⟩ s s.within_self)

/-- Every starter starts an operand. -/
theorem operandOfStarter_eq : operandOfStarter s expr inner = some (operand s expr inner) := by
  rw [operand]
  split
  · next hnone =>
    rw [operandOfStarter]
    split
    · rfl
    · next hsome => cases hnone.symm.trans hsome
  · next token t hnext =>
    rw [operandOfStarter]
    split
    · next hnone => cases hnone.symm.trans hnext
    · next hnext' =>
      cases hnext.symm.trans hnext'
      unfold operandFrom?
      cases token.kind with
      | int =>
        cases integer? token.literal with
        | some value => rfl
        | none => rfl
      | _ => rfl

end Operands

end Grammar

/-! ### Built-in functions and division -/

namespace Value

/-- The rest of a built-in function, which is come to only with the right number of arguments. -/
def Builtin.withArity (arity : Nat) (arguments : List Value) (rest : Option (Except Fault Value)) :
    Option (Except Fault Value) :=
  if arguments.length ≠ arity then some (.error (.wrongArity arity arguments.length)) else rest

def elements : Value → Except Fault (List Value)
  | .array elements => .ok elements
  | value => .error (.typeMismatch [.array] value.kind)

/-- A call that takes the arguments from their places in the list. -/
def Builtin.callAt (arguments : List Value) : Builtin → Option (Except Fault Value)
  | .len => withArity 1 arguments do
    match ← arguments[0]? with
    | .string text => return .ok (.int (.ofNat text.length))
    | .array elements => return .ok (.int (.ofNat elements.length))
    | value => return .error (.typeMismatch [.string, .array] value.kind)
  | .first => withArity 1 arguments do
    return (← arguments[0]?).elements.map fun elements => elements.head?.getD .null
  | .last => withArity 1 arguments do
    return (← arguments[0]?).elements.map fun elements => elements.getLast?.getD .null
  | .rest => withArity 1 arguments do
    return (← arguments[0]?).elements.map fun elements =>
      match elements with
      | [] => Value.null
      | _ :: others => .array others
  | .push => withArity 2 arguments do
    match (← arguments[0]?).elements with
    | .ok elements => return .ok (.array (elements ++ [← arguments[1]?]))
    | .error fault => return .error fault
  | .puts => some (.ok .null)

theorem Builtin.callAt_eq (builtin : Builtin) (arguments : List Value) :
    builtin.callAt arguments = some (builtin.call arguments) := by
  cases builtin with
  | puts => rfl
  | push =>
    by_cases harity : arguments.length = 2
    · obtain ⟨value, added, rfl⟩ := List.length_eq_two.mp harity
      cases value <;> rfl
    · simp [callAt, withArity, call, arity?, harity]
  | rest =>
    by_cases harity : arguments.length = 1
    · obtain ⟨value, rfl⟩ := List.length_eq_one_iff.mp harity
      rcases value with _ | _ | _ | (_ | _) | _ | _ | _ | _ <;> rfl
    · simp [callAt, withArity, call, arity?, harity]
  | len | first | last =>
    by_cases harity : arguments.length = 1
    · obtain ⟨value, rfl⟩ := List.length_eq_one_iff.mp harity
      cases value <;> rfl
    · simp [callAt, withArity, call, arity?, harity]

/-- Division toward zero, which has no result for the divisor zero. -/
def divide? (a b : Int64) : Option Int64 :=
  if b = 0 then none else some (a / b)

def arithmeticAt (op : Grammar.BinaryOp) (a b : Int64) : Option (Except Fault Value) :=
  match op with
  | .divide =>
    if b = 0 then some (.error (.divisionByZero a))
    else (divide? a b).map fun quotient => .ok (int quotient)
  | op => some (arithmetic op a b)

theorem arithmeticAt_eq (op : Grammar.BinaryOp) (a b : Int64) :
    arithmeticAt op a b = some (arithmetic op a b) := by
  cases op with
  | divide =>
    simp only [arithmeticAt, arithmetic, divide?]
    split <;> rfl
  | _ => rfl

end Value

/-! ### All guards together -/

namespace Grammar

open Cursor Text

/-- No operation on a source, nor on what is read from it, is come to outside its domain. -/
structure Guarded (source : String) : Prop where
  /-- Scanning cuts the source only where it can be cut, at any offset. -/
  cuts : ∀ offset, Token.scanBySlices source offset = some (Token.scan source offset)
  spans : ∀ token ∈ Token.stream source,
    token.span.start.toNat + token.span.length.toNat < 2 ^ 32
  /-- Whatever was asked for, the end of the input is still to come, and nothing is behind it. -/
  ahead : ∀ requests, ∃ taken before last, Token.stream source = taken ++ (before ++ [last]) ∧
    ((ofSource source).afterAll requests).tokens = before ++ [last] ∧
      last.kind = .eof ∧ ∀ token ∈ taken ++ before, token.kind ≠ .eof
  peeks : ∀ requests, ∃ token, ((ofSource source).afterAll requests).peek? = some token
  /-- Every error is about a token, and so tells an actual kind where it tells an expected one. -/
  errors : ∀ requests request,
    ∀ error ∈ (((ofSource source).afterAll requests).answer request).errors,
      (∃ token ∈ Token.stream source, error.About token) ∧
        ∀ expected, error.problem ≠ .unexpected expected none
  /-- Tokens behind the end of the input would not be seen. -/
  unseen : ∀ requests request more,
    let s := (ofSource source).afterAll requests
    Cursor.answer ⟨s.tokens ++ more, s.depth⟩ request = s.answer request
  operands : ∀ (s : Cursor) (expr : Reader s.size (Expr Token))
    (inner : UnaryOp → Reader s.size (Expr Token)),
    operandOfStarter s expr inner = some (operand s expr inner)
  builtins : ∀ (builtin : Value.Builtin) (arguments : List Value),
    builtin.callAt arguments = some (builtin.call arguments)
  division : ∀ (op : BinaryOp) (a b : Int64),
    Value.arithmeticAt op a b = some (Value.arithmetic op a b)

theorem stop_lt_of_mem_stream {source : String} (hsize : byteLength source.toList < 2 ^ 32)
    {token : Token} (h : token ∈ Token.stream source) : token.span.stop < 2 ^ 32 := by
  have htiles : Token.TilesFrom source.toList 0 (Token.stream source) :=
    Token.tilesFrom_streamFrom source.toList [] hsize
  obtain ⟨piece, ⟨before, after, hsource, hbefore, hstop⟩, -⟩ := htiles.exists_slice hsize token h
  have hlength := congrArg byteLength hsource
  simp only [byteLength_append] at hlength
  omega

theorem guarded {source : String} (hsize : byteLength source.toList < 2 ^ 32 - 1) :
    Guarded source := by
  have hsize' : byteLength source.toList < 2 ^ 32 := by omega
  have hbounded : ∀ requests, ((ofSource source).afterAll requests).Bounded := fun requests =>
    (bounded_ofSource source).of_crosses (crosses_afterAll _ requests)
  refine {
    cuts := Token.scanBySlices_eq hsize'
    spans := fun token htoken => stop_lt_of_mem_stream hsize' htoken
    ahead := fun requests => ?_
    peeks := fun requests => ?_
    errors := fun requests request error herror => ?_
    unseen := fun requests request more => answer_append (hbounded requests) request more
    operands := fun s expr inner => operandOfStarter_eq expr inner
    builtins := Value.Builtin.callAt_eq
    division := Value.arithmeticAt_eq }
  · obtain ⟨taken, htokens, -⟩ := crosses_afterAll (ofSource source) requests
    obtain ⟨_, hmem, -⟩ := hbounded requests
    have hlast := (List.dropLast_append_getLast (List.ne_nil_of_mem hmem)).symm
    have hstream : Token.stream source = taken ++ ((ofSource source).afterAll requests).tokens :=
      htokens
    rw [hlast] at hstream
    obtain ⟨hkind, hbefore⟩ :=
      Token.kind_of_stream_eq (hstream.trans (List.append_assoc _ _ _).symm)
    exact ⟨taken, _, _, hstream, hlast, hkind, hbefore⟩
  · obtain ⟨token, -, hpeek⟩ := (hbounded requests).exists_peek?
    exact ⟨token, hpeek⟩
  · obtain ⟨r, t, hr, hstuck⟩ := stuck_of_answer herror
    have hcross := (crosses_afterAll _ requests).trans hr
    obtain ⟨token, htoken, habout⟩ := hstuck.about ((bounded_ofSource source).of_crosses hcross)
    obtain ⟨taken, htokens, -⟩ := hcross
    have hmem : token ∈ (ofSource source).tokens := htokens ▸ List.mem_append_right _ htoken
    exact ⟨⟨token, hmem, habout⟩, habout.problem_ne⟩

/-- A letter of two bytes, an illegal character, a division, and a string that is not closed. -/
theorem guarded_unclosed :
    let source := "let é = fn(a) \x7b len(a, 1 / 0) @ \x7d; [é, \"a"
    byteLength source.toList < 2 ^ 32 - 1 ∧ Guarded source := by
  intro source
  have hsize : byteLength source.toList < 2 ^ 32 - 1 := by decide
  exact ⟨hsize, guarded hsize⟩

end Grammar

end Scriptlet
