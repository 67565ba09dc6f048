import Scriptlet.Grammar.Outcome

/-! # Lists, statements and blocks

The phrases that hold expressions without being operands themselves. Each is read with the help of a
reader of expressions, which is asked only for what lies further on.
-/

namespace Scriptlet.Grammar

/-- Takes a semicolon that follows the phrase. -/
def Outcome.terminated {α : Type} {s : Cursor} (x : Outcome s α) : Outcome s α :=
  x.andThen fun value t ht =>
    .ok value (t.skip .semicolon) (Nat.lt_of_le_of_lt (Cursor.size_skip_le .semicolon t) ht)

namespace Cursor

variable {n : Nat} {α : Type}

/-- One or more items between commas, up to and including the closing token. -/
def commaSeparated (item : Reader n α) (closing : Token.Kind) (s : Cursor) (hs : s.size < n) :
    Outcome s (List α) :=
  (item s hs).andThen fun first t ht =>
    match h : t.eat? .comma with
    | some (_, u) =>
      have hu : u.size < s.size := Nat.lt_trans (size_of_eat? h) ht
      ((commaSeparated item closing u (Nat.lt_trans hu hs)).map (first :: ·)).after hu
    | none => ((t.expect closing).map fun _ => [first]).after ht
termination_by s.size

/-- Items between commas, up to and including the closing token. A comma has an item after it. -/
def list (item : Reader n α) (closing : Token.Kind) (s : Cursor) (hs : s.size < n) :
    Outcome s (List α) :=
  match h : s.eat? closing with
  | some (_, t) => .ok [] t (size_of_eat? h)
  | none => commaSeparated item closing s hs

variable (expr : Reader n (Expr Token))

/-- A key and its value around a colon. -/
def entry : Reader n (Expr Token × Expr Token) := fun s hs =>
  (expr s hs).andThen fun key t ht =>
  ((t.expect .colon).after ht).andThen fun _ u hu =>
  ((expr u (Nat.lt_trans hu hs)).after hu).map fun value => (key, value)

def binding (s : Cursor) (hs : s.size < n) : Outcome s (Stmt Token) :=
  (s.expect .letWord).andThen fun token t ht =>
  (t.binder.after ht).andThen fun target u hu =>
  ((u.expect .assign).after hu).andThen fun _ v hv =>
  ((expr v (Nat.lt_trans hv hs)).after hv).map (.bind token target ·)

/-- Whether no value follows a `return`: the statement, the block or the input ends. -/
def endsReturn (s : Cursor) : Bool :=
  s.atEnd || s.kind? == some .semicolon || s.kind? == some .rightBrace

def leaving (s : Cursor) (hs : s.size < n) : Outcome s (Stmt Token) :=
  (s.expect .returnWord).andThen fun token t ht =>
    if t.endsReturn then .ok (.leave token none) t ht
    else ((expr t (Nat.lt_trans ht hs)).map fun value => .leave token (some value)).after ht

/-- A statement with the semicolon after it, if there is one. -/
def statement : Reader n (Stmt Token) := fun s hs =>
  match s.peek? with
  | none => .fail (s.unexpected .eof) s s.within_self
  | some token =>
    match token.kind with
    | .letWord => (binding expr s hs).terminated
    | .returnWord => (leaving expr s hs).terminated
    | _ => ((expr s hs).map (.expr token ·)).terminated

/-- The statements of a block up to and including the closing brace, from a cursor `s` behind the
opening brace. They also end with the input. -/
def statements (origin s : Cursor) (ho : s.size < origin.size) (hs : s.size < n) :
    Outcome origin (List (Stmt Token)) :=
  match h : s.eat? .rightBrace with
  | some (_, t) => .ok [] t (Nat.lt_trans (size_of_eat? h) ho)
  | none =>
    if s.atEnd then .ok [] s ho
    else
      ((statement expr s hs).andThen fun first t ht =>
        (statements s t ht (Nat.lt_trans ht hs)).map (first :: ·)).after ho
termination_by s.size

def block : Reader n (Block Token) := fun s hs =>
  (s.expect .leftBrace).andThen fun token t ht =>
    (statements expr s t ht (Nat.lt_trans ht hs)).map (.mk token ·)

/-- A conditional, of which the `if` has been taken. -/
def branch (token : Token) : Reader n (Expr Token) := fun s hs =>
  (s.expect .leftParen).andThen fun _ t ht =>
  ((expr t (Nat.lt_trans ht hs)).after ht).andThen fun condition u hu =>
  ((u.expect .rightParen).after hu).andThen fun _ v hv =>
  ((block expr v (Nat.lt_trans hv hs)).after hv).andThen fun consequence w hw =>
    match h : w.eat? .elseWord with
    | some (_, x) =>
      have hx : x.size < s.size := Nat.lt_trans (size_of_eat? h) hw
      ((block expr x (Nat.lt_trans hx hs)).after hx).map fun alternative =>
        .branch token condition consequence (some alternative)
    | none => .ok (.branch token condition consequence none) w hw

/-- A function literal, of which the `fn` has been taken. -/
def function (token : Token) : Reader n (Expr Token) := fun s hs =>
  (s.expect .leftParen).andThen fun _ t ht =>
  ((list (fun s _ => s.binder) .rightParen t (Nat.lt_trans ht hs)).after ht).andThen
    fun parameters u hu =>
  ((block expr u (Nat.lt_trans hu hs)).after hu).map fun body => .function token parameters body

end Cursor

end Scriptlet.Grammar
