import Scriptlet.Grammar.Phrase

/-! # Expressions

An expression is an operand and the operators after it. Binding powers decide how far an operator
reaches: from the operand on, operators are taken as long as their left power is not below the
power that the context asks for.
-/

namespace Scriptlet.Grammar

/-- The value of decimal digits, if it fits a signed 64-bit integer. -/
def integer? (digits : String) : Option Int64 :=
  let value := Nat.ofDigitChars 10 digits.toList 0
  if value ≤ Int64.maxValue.toNatClampNeg then some (Int64.ofNat value) else none

/-- What can follow an operand within the same expression. -/
inductive Suffix where
  | binary (op : BinaryOp)
  | call
  | index
deriving DecidableEq, Repr

namespace Suffix

def ofKind? : Token.Kind → Option Suffix
  | .star => some (.binary .multiply)
  | .slash => some (.binary .divide)
  | .plus => some (.binary .add)
  | .minus => some (.binary .subtract)
  | .less => some (.binary .less)
  | .greater => some (.binary .greater)
  | .equal => some (.binary .equal)
  | .notEqual => some (.binary .notEqual)
  | .leftParen => some .call
  | .leftBracket => some .index
  | _ => none

def power : Suffix → Nat
  | .binary op => op.leftPower
  | .call | .index => suffixPower

end Suffix

namespace Cursor

/-- An operand: a literal, a name, a unary operator with its operand, or a phrase between delimiters.
A token that starts none of these is left. -/
def operand (s : Cursor) (expr : Reader s.size (Expr Token))
    (inner : UnaryOp → Reader s.size (Expr Token)) : Outcome s (Expr Token) :=
  match h : s.next? with
  | none => .fail (s.unexpected .eof) s s.within_self
  | some (token, t) =>
    have ht : t.size < s.size := size_lt_of_next? h
    match token.kind with
    | .int =>
      match integer? token.literal with
      | some value => .ok (.int token value) t ht
      | none => .fail ⟨.integerTooLarge token.literal, token.span⟩ t (within_of_lt ht)
    | .ident => .ok (.name token token.literal) t ht
    | .string => .ok (.string token token.literal) t ht
    | .trueWord => .ok (.bool token true) t ht
    | .falseWord => .ok (.bool token false) t ht
    | .bang => ((inner .not t ht).map (.unary token .not ·)).after ht
    | .minus => ((inner .negate t ht).map (.unary token .negate ·)).after ht
    | .leftParen =>
      ((expr t ht).andThen fun value u hu => ((u.expect .rightParen).map fun _ => value).after hu).after
        ht
    | .ifWord => (branch expr token t ht).after ht
    | .fnWord => (function expr token t ht).after ht
    | .leftBracket => ((list expr .rightBracket t ht).map (.array token ·)).after ht
    | .leftBrace => ((list (entry expr) .rightBrace t ht).map (.map token ·)).after ht
    | kind => .fail ⟨.noExpression kind, token.span⟩ s s.within_self

/-- What a suffix makes of the operand before it, once its token has been taken. -/
def suffixed {n : Nat} (expr : Nat → Reader n (Expr Token)) (token : Token) (lhs : Expr Token) :
    Suffix → Reader n (Expr Token)
  | .binary op => fun s hs => (expr op.rightPower s hs).map (.binary token op lhs ·)
  | .call => fun s hs => (list (expr 0) .rightParen s hs).map (.call token lhs ·)
  | .index => fun s hs =>
    (expr 0 s hs).andThen fun position t ht =>
      ((t.expect .rightBracket).map fun _ => .index token lhs position).after ht

/-- Takes suffixes from the cursor `s` on, as long as their power is not below `least`. -/
def climb {n : Nat} (expr : Nat → Reader n (Expr Token)) (least : Nat) (origin : Cursor)
    (lhs : Expr Token) (s : Cursor) (ho : s.size < origin.size) (hs : s.size < n) :
    Outcome origin (Expr Token) :=
  match h : s.next? with
  | none => .ok lhs s ho
  | some (token, t) =>
    have ht : t.size < s.size := size_lt_of_next? h
    match Suffix.ofKind? token.kind with
    | none => .ok lhs s ho
    | some suffix =>
      if suffix.power < least then .ok lhs s ho
      else
        ((suffixed expr token lhs suffix t (Nat.lt_trans ht hs)).andThen fun lhs u hu =>
          climb expr least t lhs u hu (Nat.lt_trans hu (Nat.lt_trans ht hs))).after
            (Nat.lt_trans ht ho)
termination_by s.size

/-- An expression whose operators all have at least the power `least` on their left. -/
def expressionAbove (least : Nat) (s : Cursor) : Outcome s (Expr Token) :=
  let expr : Nat → Reader s.size (Expr Token) := fun power t _ => expressionAbove power t
  (operand s (expr 0) (fun op => expr op.power)).andThen fun lhs t ht =>
    climb expr least s lhs t ht ht
termination_by s.size

def expression (s : Cursor) : Outcome s (Expr Token) :=
  s.expressionAbove 0

end Cursor

end Scriptlet.Grammar
