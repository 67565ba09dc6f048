import Scriptlet.Grammar.Program

/-! # The readers step by step

The upcoming token decides how reading goes on: whether the token that belongs here is taken,
whether a list has items, and in each loop whether there is one more round.
-/

namespace Scriptlet.Grammar

open Cursor

variable {n : Nat}

/-! ### At one token -/

theorem expect_of_some {kind : Token.Kind} {s t : Cursor} {token : Token}
    (h : s.eat? kind = some (token, t)) : s.expect kind = .ok token t (size_of_eat? h) := by
  rw [expect]
  split
  · next heat =>
    cases h.symm.trans heat
    rfl
  · next heat => cases h.symm.trans heat

theorem expect_of_none {kind : Token.Kind} {s : Cursor} (h : s.eat? kind = none) :
    s.expect kind = .fail (s.unexpected kind) s s.within_self := by
  rw [expect]
  split
  · next heat => cases h.symm.trans heat
  · rfl

section Lists

variable {β : Type} {item : Reader n β} {closing : Token.Kind} {s : Cursor} (hs : s.size < n)

theorem list_of_some {t : Cursor} {token : Token} (h : s.eat? closing = some (token, t)) :
    list item closing s hs = .ok [] t (size_of_eat? h) := by
  rw [list]
  split
  · next heat =>
    cases h.symm.trans heat
    rfl
  · next heat => cases h.symm.trans heat

theorem list_of_none (h : s.eat? closing = none) :
    list item closing s hs = commaSeparated item closing s hs := by
  rw [list]
  split
  · next heat => cases h.symm.trans heat
  · rfl

end Lists

/-! ### Behind an operand -/

/-- Whether the upcoming token, taken as an operator, has less than the given power. -/
def Cursor.StopsAt (least : Nat) (s : Cursor) : Prop :=
  ∀ token t suffix, s.next? = some (token, t) → Suffix.ofKind? token.kind = some suffix →
    suffix.power < least

theorem Cursor.StopsAt.mono {least more : Nat} {s : Cursor} (h : s.StopsAt least)
    (hle : least ≤ more) : s.StopsAt more :=
  fun token t suffix hnext hkind => Nat.lt_of_lt_of_le (h token t suffix hnext hkind) hle

theorem Cursor.stopsAt_or_power_ge (least : Nat) (s : Cursor) :
    s.StopsAt least ∨ ∃ token t suffix, s.next? = some (token, t) ∧
      Suffix.ofKind? token.kind = some suffix ∧ least ≤ suffix.power := by
  by_cases h : ∃ token t suffix, s.next? = some (token, t) ∧
      Suffix.ofKind? token.kind = some suffix ∧ least ≤ suffix.power
  · exact Or.inr h
  · left
    intro token t suffix hnext hkind
    exact Nat.lt_of_not_le fun hle => h ⟨token, t, suffix, hnext, hkind, hle⟩

theorem climb_of_stopsAt {expr : Nat → Reader n (Expr Token)} {least : Nat} {origin s : Cursor}
    {lhs : Expr Token} {ho : s.size < origin.size} {hs : s.size < n} (h : s.StopsAt least) :
    climb expr least origin lhs s ho hs = .ok lhs s ho := by
  rw [climb]
  split
  · rfl
  · next token t hnext =>
    dsimp only
    split
    · rfl
    · next suffix hkind => rw [if_pos (h token t suffix hnext hkind)]

theorem climb_of_power_ge {expr : Nat → Reader n (Expr Token)} {least : Nat} {origin s t : Cursor}
    {lhs : Expr Token} {token : Token} {suffix : Suffix} (ho : s.size < origin.size)
    (hs : s.size < n) (ht : t.size < s.size) (hnext : s.next? = some (token, t))
    (hkind : Suffix.ofKind? token.kind = some suffix) (hpower : least ≤ suffix.power) :
    climb expr least origin lhs s ho hs
      = ((Cursor.suffixed expr token lhs suffix t (Nat.lt_trans ht hs)).andThen fun lhs u hu =>
          climb expr least t lhs u hu (Nat.lt_trans hu (Nat.lt_trans ht hs))).after
            (Nat.lt_trans ht ho) := by
  rw [climb]
  split
  · next hnone =>
    rw [hnone] at hnext
    cases hnext
  · next token' t' hnext' =>
    cases hnext.symm.trans hnext'
    dsimp only
    split
    · next hnone =>
      rw [hnone] at hkind
      cases hkind
    · next suffix' hkind' =>
      cases hkind.symm.trans hkind'
      rw [if_neg (Nat.not_lt.mpr hpower)]

/-! ### In a block -/

section Statements

variable {read : Reader n (Expr Token)} {origin s : Cursor}
  (ho : s.size < origin.size) (hs : s.size < n)

theorem statements_of_closed {t : Cursor} {token : Token}
    (h : s.eat? .rightBrace = some (token, t)) :
    statements read origin s ho hs = .ok [] t (Nat.lt_trans (size_of_eat? h) ho) := by
  rw [statements]
  split
  · next heat =>
    cases h.symm.trans heat
    rfl
  · next heat => cases h.symm.trans heat

theorem statements_of_atEnd (hopen : s.eat? .rightBrace = none) (hend : s.atEnd = true) :
    statements read origin s ho hs = .ok [] s ho := by
  rw [statements]
  split
  · next heat => cases hopen.symm.trans heat
  · exact if_pos hend

theorem statements_of_more (hopen : s.eat? .rightBrace = none) (hend : ¬s.atEnd = true) :
    statements read origin s ho hs
      = ((statement read s hs).andThen fun first t ht =>
          (statements read s t ht (Nat.lt_trans ht hs)).map (first :: ·)).after ho := by
  rw [statements]
  split
  · next heat => cases hopen.symm.trans heat
  · exact if_neg hend

end Statements

/-! ### In a program -/

theorem recover_of_next {s t : Cursor} {token : Token} {kind : Token.Kind}
    (h : s.next? = some (token, t)) (hkind : token.kind = kind) :
    s.recover
      = if kind = .eof then s
        else if kind = .semicolon ∧ t.depth = 0 then t
        else if kind = .rightBrace ∧ t.depth = 0 then t.skip .semicolon
        else t.recover := by
  subst hkind
  obtain ⟨_ | ⟨first, rest⟩, depth⟩ := s
  · cases h
  · cases h
    rfl

theorem Cursor.size_lt_succ (s : Cursor) : s.size < s.size + 1 :=
  Nat.lt_succ_self s.size

def Cursor.topStatement (s : Cursor) : Outcome s (Stmt Token) :=
  statement (fun t (_ : t.size < s.size + 1) => t.expression) s s.size_lt_succ

theorem program_of_atEnd {s : Cursor} (h : s.atEnd = true) : s.program = (⟨[], []⟩, s) := by
  rw [program, dif_pos h]

theorem program_of_ok {s t : Cursor} {first : Stmt Token} {shorter : t.size < s.size}
    (h : ¬s.atEnd = true) (hfirst : s.topStatement = .ok first t shorter) :
    s.program
      = (⟨first :: t.program.1.statements, t.program.1.errors⟩, t.program.2) := by
  rw [program, dif_neg h]
  rw [topStatement] at hfirst
  rw [hfirst]

theorem program_of_fail {s t : Cursor} {error : Error} {within : t = s ∨ t.size < s.size}
    (h : ¬s.atEnd = true) (hfail : s.topStatement = .fail error t within) :
    s.program
      = (⟨t.recover.program.1.statements, error :: t.recover.program.1.errors⟩,
          t.recover.program.2) := by
  rw [program, dif_neg h]
  rw [topStatement] at hfail
  rw [hfail]

end Scriptlet.Grammar
