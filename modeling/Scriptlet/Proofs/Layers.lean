import Scriptlet.Grammar.Expression

/-! # The layered grammar of expressions

Recursive descent without binding powers. There is one reader for each level of operators; the
operators of a level stand between phrases of the next tighter level and group to the left. Inside
delimiters an expression starts again from the loosest level.
-/

namespace Scriptlet.Grammar.Layers

open Cursor

def equalityOp? : Token.Kind → Option BinaryOp
  | .equal => some .equal
  | .notEqual => some .notEqual
  | _ => none

def comparisonOp? : Token.Kind → Option BinaryOp
  | .less => some .less
  | .greater => some .greater
  | _ => none

def sumOp? : Token.Kind → Option BinaryOp
  | .plus => some .add
  | .minus => some .subtract
  | _ => none

def productOp? : Token.Kind → Option BinaryOp
  | .star => some .multiply
  | .slash => some .divide
  | _ => none

def unaryOp? : Token.Kind → Option UnaryOp
  | .bang => some .not
  | .minus => some .negate
  | _ => none

variable {n : Nat}

/-- Operators of one level, each with its right operand, grouped to the left from `lhs` on. -/
def chain (op? : Token.Kind → Option BinaryOp) (item : Reader n (Expr Token)) (origin : Cursor)
    (lhs : Expr Token) (s : Cursor) (ho : s.size < origin.size) (hs : s.size < n) :
    Outcome origin (Expr Token) :=
  match h : s.next? with
  | none => .ok lhs s ho
  | some (token, t) =>
    have ht : t.size < s.size := size_lt_of_next? h
    match op? token.kind with
    | none => .ok lhs s ho
    | some op =>
      ((item t (Nat.lt_trans ht hs)).andThen fun rhs u hu =>
        chain op? item t (.binary token op lhs rhs) u hu
          (Nat.lt_trans hu (Nat.lt_trans ht hs))).after (Nat.lt_trans ht ho)
termination_by s.size

/-- Calls and index expressions, grouped to the left from `lhs` on. -/
def suffixes (whole : Reader n (Expr Token)) (origin : Cursor) (lhs : Expr Token) (s : Cursor)
    (ho : s.size < origin.size) (hs : s.size < n) : Outcome origin (Expr Token) :=
  match h : s.next? with
  | none => .ok lhs s ho
  | some (token, t) =>
    have ht : t.size < s.size := size_lt_of_next? h
    have hn : t.size < n := Nat.lt_trans ht hs
    match token.kind with
    | .leftParen =>
      ((list whole .rightParen t hn).andThen fun arguments u hu =>
        suffixes whole t (.call token lhs arguments) u hu (Nat.lt_trans hu hn)).after
          (Nat.lt_trans ht ho)
    | .leftBracket =>
      ((whole t hn).andThen fun position u hu =>
        ((u.expect .rightBracket).after hu).andThen fun _ v hv =>
          suffixes whole t (.index token lhs position) v hv (Nat.lt_trans hv hn)).after
            (Nat.lt_trans ht ho)
    | _ => .ok lhs s ho
termination_by s.size

def primary (s : Cursor) (whole : Reader s.size (Expr Token)) : Outcome s (Expr Token) :=
  match h : s.next? with
  | none => .fail (s.unexpected .eof) s s.within_self
  | some (token, t) =>
    have ht : t.size < s.size := size_lt_of_next? h
    match token.kind with
    | .int =>
      match integer? token.literal with
      | some value => .ok (.int token value) t ht
      | none => .fail ⟨.integerTooLarge token.literal, token.span⟩ t (within_of_lt ht)
    | .ident => .ok (.name token token.literal) t ht
    | .string => .ok (.string token token.literal) t ht
    | .trueWord => .ok (.bool token true) t ht
    | .falseWord => .ok (.bool token false) t ht
    | .leftParen =>
      ((whole t ht).andThen fun inner u hu =>
        ((u.expect .rightParen).map fun _ => inner).after hu).after ht
    | .ifWord => (branch whole token t ht).after ht
    | .fnWord => (function whole token t ht).after ht
    | .leftBracket => ((list whole .rightBracket t ht).map (.array token ·)).after ht
    | .leftBrace => ((list (entry whole) .rightBrace t ht).map (.map token ·)).after ht
    | kind => .fail ⟨.noExpression kind, token.span⟩ s s.within_self

mutual

def equality (s : Cursor) : Outcome s (Expr Token) :=
  (comparison s).andThen fun first t ht =>
    chain equalityOp? (fun u (_ : u.size < s.size) => comparison u) s first t ht ht
termination_by (s.size, 5)

def comparison (s : Cursor) : Outcome s (Expr Token) :=
  (sum s).andThen fun first t ht =>
    chain comparisonOp? (fun u (_ : u.size < s.size) => sum u) s first t ht ht
termination_by (s.size, 4)

def sum (s : Cursor) : Outcome s (Expr Token) :=
  (product s).andThen fun first t ht =>
    chain sumOp? (fun u (_ : u.size < s.size) => product u) s first t ht ht
termination_by (s.size, 3)

def product (s : Cursor) : Outcome s (Expr Token) :=
  (prefixed s).andThen fun first t ht =>
    chain productOp? (fun u (_ : u.size < s.size) => prefixed u) s first t ht ht
termination_by (s.size, 2)

def prefixed (s : Cursor) : Outcome s (Expr Token) :=
  match h : s.next? with
  | none => suffixed s
  | some (token, t) =>
    match unaryOp? token.kind with
    | none => suffixed s
    | some op =>
      have ht : t.size < s.size := size_lt_of_next? h
      ((prefixed t).map (.unary token op ·)).after ht
termination_by (s.size, 1)

def suffixed (s : Cursor) : Outcome s (Expr Token) :=
  (primary s (fun u (_ : u.size < s.size) => equality u)).andThen fun first t ht =>
    suffixes (fun u (_ : u.size < s.size) => equality u) s first t ht ht
termination_by (s.size, 0)

end

end Scriptlet.Grammar.Layers
