import Scriptlet.Proofs.Layers
import Scriptlet.Proofs.Outcome
import Scriptlet.Proofs.Steps

/-! # Climbing by binding powers and the layered grammar

An expression above a power ends before an operator of at least that power. So an expression above
a power is one above the next power, followed by a chain of the operators of just that power, and
going up through the powers gives the levels of the layered grammar one by one.
-/

namespace Scriptlet.Grammar

open Cursor Layers

variable {n : Nat}

theorem ends_climb (expr : Nat → Reader n (Expr Token)) (least : Nat) (origin : Cursor)
    (lhs : Expr Token) (s : Cursor) (ho : s.size < origin.size) (hs : s.size < n) :
    (climb expr least origin lhs s ho hs).Ends fun _ t => t.StopsAt least := by
  rcases s.stopsAt_or_power_ge least with hstop | ⟨token, t, suffix, hnext, hkind, hpower⟩
  · rw [climb_of_stopsAt hstop]
    exact Outcome.ends_ok ho hstop
  · have ht : t.size < s.size := size_lt_of_next? hnext
    rw [climb_of_power_ge ho hs ht hnext hkind hpower]
    refine Outcome.Ends.after (Outcome.Ends.andThen (P := fun _ _ => True) ?_ ?_) _
    · exact fun _ _ _ _ => trivial
    · exact fun lhs u hu _ => ends_climb expr least t lhs u hu _
termination_by s.size

theorem ends_expressionAbove (least : Nat) (s : Cursor) :
    (s.expressionAbove least).Ends fun _ t => t.StopsAt least := by
  rw [expressionAbove]
  exact Outcome.Ends.andThen (P := fun _ _ => True) (fun _ _ _ _ => trivial)
    fun lhs t ht _ => ends_climb _ least s lhs t ht ht

/-- The infix operators of one power. -/
def opAt? (power : Nat) (kind : Token.Kind) : Option BinaryOp :=
  match Suffix.ofKind? kind with
  | some (.binary op) => if op.leftPower = power then some op else none
  | _ => none

theorem opAt?_eq_some_iff {power : Nat} {kind : Token.Kind} {op : BinaryOp} :
    opAt? power kind = some op ↔
      Suffix.ofKind? kind = some (.binary op) ∧ op.leftPower = power := by
  simp only [opAt?]
  split
  · next op' hkind =>
    split
    · next hpower =>
      constructor
      · intro h
        cases h
        exact ⟨hkind, hpower⟩
      · rintro ⟨h, _⟩
        cases hkind.symm.trans h
        rfl
    · next hpower =>
      constructor
      · intro h
        cases h
      · rintro ⟨h, hop⟩
        cases hkind.symm.trans h
        exact absurd hop hpower
  · next hother =>
    constructor
    · intro h
      cases h
    · rintro ⟨h, _⟩
      exact absurd h (hother op)

theorem chain_of_none {op? : Token.Kind → Option BinaryOp} {item : Reader n (Expr Token)}
    {origin s : Cursor} {lhs : Expr Token} {ho : s.size < origin.size} {hs : s.size < n}
    (h : ∀ token t, s.next? = some (token, t) → op? token.kind = none) :
    chain op? item origin lhs s ho hs = .ok lhs s ho := by
  rw [chain]
  split
  · rfl
  · next token t hnext =>
    dsimp only
    split
    · rfl
    · next op hop =>
      rw [h token t hnext] at hop
      cases hop

theorem chain_of_some {op? : Token.Kind → Option BinaryOp} {item : Reader n (Expr Token)}
    {origin s t : Cursor} {lhs : Expr Token} {token : Token} {op : BinaryOp}
    (ho : s.size < origin.size) (hs : s.size < n) (ht : t.size < s.size)
    (hnext : s.next? = some (token, t)) (hop : op? token.kind = some op) :
    chain op? item origin lhs s ho hs
      = ((item t (Nat.lt_trans ht hs)).andThen fun rhs u hu =>
          chain op? item t (.binary token op lhs rhs) u hu
            (Nat.lt_trans hu (Nat.lt_trans ht hs))).after (Nat.lt_trans ht ho) := by
  rw [chain]
  split
  · next hnone =>
    rw [hnone] at hnext
    cases hnext
  · next token' t' hnext' =>
    cases hnext.symm.trans hnext'
    dsimp only
    split
    · next hnone =>
      rw [hnone] at hop
      cases hop
    · next op' hop' =>
      cases hop.symm.trans hop'
      rfl

theorem next?_op?_cases {β : Type} (op? : Token.Kind → Option β) (s : Cursor) :
    (∀ token t, s.next? = some (token, t) → op? token.kind = none) ∨
      ∃ token t op, s.next? = some (token, t) ∧ op? token.kind = some op := by
  cases hnext : s.next? with
  | none =>
    left
    intro token t h
    cases h
  | some step =>
    obtain ⟨token, t⟩ := step
    cases hop : op? token.kind with
    | none =>
      left
      intro token' t' h
      cases h
      exact hop
    | some op => exact Or.inr ⟨token, t, op, rfl, hop⟩

theorem after_chain {op? : Token.Kind → Option BinaryOp} {item : Reader n (Expr Token)}
    {origin t s : Cursor} {lhs : Expr Token} (ht : t.size < origin.size) (ho : s.size < t.size)
    (hs : s.size < n) :
    (chain op? item t lhs s ho hs).after ht
      = chain op? item origin lhs s (Nat.lt_trans ho ht) hs := by
  rcases next?_op?_cases op? s with hnone | ⟨token, u, op, hnext, hop⟩
  · rw [chain_of_none hnone, chain_of_none hnone, Outcome.after_ok]
  · have hu : u.size < s.size := size_lt_of_next? hnext
    rw [chain_of_some _ _ hu hnext hop, chain_of_some _ _ hu hnext hop, Outcome.after_after]

/-- Expressions above a power, where fewer than `n` tokens are left. -/
abbrev above (n power : Nat) : Reader n (Expr Token) :=
  fun s _ => s.expressionAbove power

/-- Climbing from one power is climbing from the next and then chaining the operators of just the
one power. -/
theorem climb_eq_andThen_chain {power : Nat} (hpower : power ≠ suffixPower) (origin : Cursor)
    (lhs : Expr Token) (s : Cursor) (ho : s.size < origin.size) (hn : origin.size ≤ n) :
    climb (above n) power origin lhs s ho (Nat.lt_of_lt_of_le ho hn)
      = (climb (above n) (power + 1) origin lhs s ho (Nat.lt_of_lt_of_le ho hn)).andThen
          fun lhs t ht => chain (opAt? power) (above n (power + 1)) origin lhs t ht
            (Nat.lt_of_lt_of_le ht hn) := by
  rcases s.stopsAt_or_power_ge power with hstop | ⟨token, t, suffix, hnext, hkind, hle⟩
  · have hnone : ∀ token t, s.next? = some (token, t) → opAt? power token.kind = none := by
      intro token t hnext
      cases hop : opAt? power token.kind with
      | none => rfl
      | some op =>
        obtain ⟨hkind, heq⟩ := opAt?_eq_some_iff.mp hop
        have hlt := hstop token t _ hnext hkind
        exact absurd heq (Nat.ne_of_lt hlt)
    rw [climb_of_stopsAt hstop, climb_of_stopsAt (hstop.mono (Nat.le_succ power)),
      Outcome.ok_andThen, chain_of_none hnone]
  · have ht : t.size < s.size := size_lt_of_next? hnext
    have hto : t.size < origin.size := Nat.lt_trans ht ho
    have htn : t.size ≤ n := Nat.le_of_lt (Nat.lt_of_lt_of_le hto hn)
    rcases Nat.lt_or_eq_of_le hle with hlt | heq
    · -- Both climbs take the operator, and the chain comes after what follows it.
      rw [climb_of_power_ge _ _ ht hnext hkind hle, climb_of_power_ge _ _ ht hnext hkind hlt,
        Outcome.after_andThen hto fun lhs u hu => (after_chain hto hu _).symm,
        Outcome.andThen_assoc]
      refine congrArg (Outcome.after _) (congrArg (Outcome.andThen _) ?_)
      funext lhs u hu
      exact climb_eq_andThen_chain hpower t lhs u hu htn
    · -- The tighter climb ends here, so that the operator begins the chain.
      have hstop : s.StopsAt (power + 1) := by
        intro token' t' suffix' hnext' hkind'
        cases hnext.symm.trans hnext'
        cases hkind.symm.trans hkind'
        exact heq ▸ Nat.lt_succ_self _
      cases suffix with
      | call => exact absurd heq hpower
      | index => exact absurd heq hpower
      | binary op =>
        have hright : op.rightPower = power + 1 := congrArg (· + 1) heq.symm
        rw [climb_of_power_ge _ _ ht hnext hkind hle, climb_of_stopsAt hstop, Outcome.ok_andThen,
          chain_of_some _ _ ht hnext (opAt?_eq_some_iff.mpr ⟨hkind, heq.symm⟩)]
        refine congrArg (Outcome.after _) ?_
        simp only [Cursor.suffixed, hright, Outcome.map_andThen]
        refine (ends_expressionAbove (power + 1) t).andThen_congr fun rhs u hu hstop => ?_
        rw [climb_eq_andThen_chain hpower t _ u hu htn, climb_of_stopsAt hstop, Outcome.ok_andThen]
termination_by s.size

theorem expressionAbove_eq_andThen_chain {power : Nat} (hpower : power ≠ suffixPower) (s : Cursor) :
    s.expressionAbove power
      = (s.expressionAbove (power + 1)).andThen fun lhs t ht =>
          chain (opAt? power) (above s.size (power + 1)) s lhs t ht ht := by
  rw [expressionAbove, expressionAbove, Outcome.andThen_assoc]
  refine congrArg (Outcome.andThen _) ?_
  funext lhs t ht
  exact climb_eq_andThen_chain hpower s lhs t ht (Nat.le_refl _)

/-- A power that no operator has makes no difference. -/
theorem expressionAbove_succ (power : Nat) (hgap : power ∉ [3, 5, 7, 9, 13]) (s : Cursor) :
    s.expressionAbove (power + 1) = s.expressionAbove power := by
  have hsuffix : power ≠ suffixPower := by
    rintro rfl
    exact hgap (by decide)
  have hop : ∀ op : BinaryOp, op.leftPower ≠ power := by
    rintro op rfl
    exact hgap (by cases op <;> decide)
  have hnone : ∀ kind, opAt? power kind = none := by
    intro kind
    cases hkind : opAt? power kind with
    | none => rfl
    | some op => exact absurd (opAt?_eq_some_iff.mp hkind).2 (hop op)
  rw [expressionAbove_eq_andThen_chain hsuffix s]
  simp only [chain_of_none fun token t _ => hnone token.kind, Outcome.andThen_ok]

/-! ### Operands and what follows them -/

theorem operand_of_unaryOp? {s t : Cursor} {token : Token} {op : UnaryOp}
    {whole : Reader s.size (Expr Token)} {inner : UnaryOp → Reader s.size (Expr Token)}
    (hnext : s.next? = some (token, t)) (hop : unaryOp? token.kind = some op)
    (ht : t.size < s.size) :
    operand s whole inner = ((inner op t ht).map (.unary token op ·)).after ht := by
  obtain ⟨tokens, depth⟩ := s
  cases tokens with
  | nil => cases hnext
  | cons head rest =>
    cases hnext
    obtain ⟨kind, literal, span⟩ := token
    cases kind <;> cases hop <;> rfl

theorem operand_eq_primary {s : Cursor} {whole : Reader s.size (Expr Token)}
    {inner : UnaryOp → Reader s.size (Expr Token)}
    (hop : ∀ token t, s.next? = some (token, t) → unaryOp? token.kind = none) :
    operand s whole inner = primary s whole := by
  obtain ⟨tokens, depth⟩ := s
  cases tokens with
  | nil => rfl
  | cons head rest =>
    have hop := hop head _ rfl
    obtain ⟨kind, literal, span⟩ := head
    cases kind <;> first | rfl | cases hop

theorem suffixes_of_stopsAt {whole : Reader n (Expr Token)} {origin s : Cursor} {lhs : Expr Token}
    {ho : s.size < origin.size} {hs : s.size < n} (h : s.StopsAt suffixPower) :
    suffixes whole origin lhs s ho hs = .ok lhs s ho := by
  rw [suffixes]
  split
  · rfl
  · next token t hnext =>
    dsimp only
    split
    · next hkind => exact absurd (h token t .call hnext (hkind ▸ rfl)) (Nat.lt_irrefl _)
    · next hkind => exact absurd (h token t .index hnext (hkind ▸ rfl)) (Nat.lt_irrefl _)
    · rfl

theorem suffixes_of_leftParen {whole : Reader n (Expr Token)} {origin s t : Cursor}
    {lhs : Expr Token} {token : Token} (ho : s.size < origin.size) (hs : s.size < n)
    (ht : t.size < s.size) (hnext : s.next? = some (token, t)) (hkind : token.kind = .leftParen) :
    suffixes whole origin lhs s ho hs
      = ((list whole .rightParen t (Nat.lt_trans ht hs)).andThen fun arguments u hu =>
          suffixes whole t (.call token lhs arguments) u hu
            (Nat.lt_trans hu (Nat.lt_trans ht hs))).after (Nat.lt_trans ht ho) := by
  obtain ⟨tokens, depth⟩ := s
  cases tokens with
  | nil => cases hnext
  | cons head rest =>
    cases hnext
    obtain ⟨kind, literal, span⟩ := token
    cases hkind
    rw [suffixes]
    rfl

theorem suffixes_of_leftBracket {whole : Reader n (Expr Token)} {origin s t : Cursor}
    {lhs : Expr Token} {token : Token} (ho : s.size < origin.size) (hs : s.size < n)
    (ht : t.size < s.size) (hnext : s.next? = some (token, t)) (hkind : token.kind = .leftBracket) :
    suffixes whole origin lhs s ho hs
      = ((whole t (Nat.lt_trans ht hs)).andThen fun position u hu =>
          ((u.expect .rightBracket).after hu).andThen fun _ v hv =>
            suffixes whole t (.index token lhs position) v hv
              (Nat.lt_trans hv (Nat.lt_trans ht hs))).after (Nat.lt_trans ht ho) := by
  obtain ⟨tokens, depth⟩ := s
  cases tokens with
  | nil => cases hnext
  | cons head rest =>
    cases hnext
    obtain ⟨kind, literal, span⟩ := token
    cases hkind
    rw [suffixes]
    rfl

theorem eq_call_or_index {kind : Token.Kind} {suffix : Suffix}
    (hkind : Suffix.ofKind? kind = some suffix) (hpower : suffixPower ≤ suffix.power) :
    kind = .leftParen ∧ suffix = .call ∨ kind = .leftBracket ∧ suffix = .index := by
  cases kind <;> cases hkind
  case leftParen => exact Or.inl ⟨rfl, rfl⟩
  case leftBracket => exact Or.inr ⟨rfl, rfl⟩
  all_goals exact absurd hpower (by decide)

/-- At the power of calls and index expressions, climbing takes these and nothing else. -/
theorem climb_suffixPower (expr : Nat → Reader n (Expr Token)) (origin : Cursor) (lhs : Expr Token)
    (s : Cursor) (ho : s.size < origin.size) (hs : s.size < n) :
    climb expr suffixPower origin lhs s ho hs = suffixes (expr 0) origin lhs s ho hs := by
  rcases s.stopsAt_or_power_ge suffixPower with hstop | ⟨token, t, suffix, hnext, hkind, hle⟩
  · rw [climb_of_stopsAt hstop, suffixes_of_stopsAt hstop]
  · have ht : t.size < s.size := size_lt_of_next? hnext
    rw [climb_of_power_ge _ _ ht hnext hkind hle]
    rcases eq_call_or_index hkind hle with ⟨hparen, rfl⟩ | ⟨hbracket, rfl⟩
    · rw [suffixes_of_leftParen _ _ ht hnext hparen]
      simp only [Cursor.suffixed, Outcome.map_andThen]
      refine congrArg (Outcome.after _) (congrArg (Outcome.andThen _) ?_)
      funext arguments u hu
      exact climb_suffixPower expr t (.call token lhs arguments) u hu _
    · rw [suffixes_of_leftBracket _ _ ht hnext hbracket]
      simp only [Cursor.suffixed, Outcome.andThen_assoc, Outcome.after_map, Outcome.map_andThen]
      refine congrArg (Outcome.after _) (congrArg (Outcome.andThen _) ?_)
      funext position u hu
      refine congrArg (Outcome.andThen _) ?_
      funext bracket v hv
      exact climb_suffixPower expr t (.index token lhs position) v hv _
termination_by s.size

/-! ### Levels -/

theorem opAt?_equality : opAt? 3 = equalityOp? := by
  funext kind
  cases kind <;> rfl

theorem opAt?_comparison : opAt? 5 = comparisonOp? := by
  funext kind
  cases kind <;> rfl

theorem opAt?_sum : opAt? 7 = sumOp? := by
  funext kind
  cases kind <;> rfl

theorem opAt?_product : opAt? 9 = productOp? := by
  funext kind
  cases kind <;> rfl

theorem expressionAbove_eq_level {power : Nat} {op? : Token.Kind → Option BinaryOp}
    {item : (s : Cursor) → Outcome s (Expr Token)} {s : Cursor} (hpower : power ≠ suffixPower)
    (hop : opAt? power = op?) (hhere : s.expressionAbove (power + 1) = item s)
    (hfurther : ∀ t : Cursor, t.size < s.size → t.expressionAbove (power + 1) = item t) :
    s.expressionAbove power
      = (item s).andThen fun lhs t ht =>
          chain op? (fun u (_ : u.size < s.size) => item u) s lhs t ht ht := by
  have hitem : above s.size (power + 1) = fun u _ => item u := by
    funext u hu
    exact hfurther u hu
  rw [expressionAbove_eq_andThen_chain hpower s, hhere, hop, hitem]

/-- The readers by binding powers and by levels agree at a cursor. -/
structure Agrees (s : Cursor) : Prop where
  prefixed : s.expressionAbove 10 = prefixed s
  product : s.expressionAbove 8 = product s
  sum : s.expressionAbove 6 = sum s
  comparison : s.expressionAbove 4 = comparison s
  equality : s.expressionAbove 0 = equality s

theorem prefixed_of_unaryOp? {s t : Cursor} {token : Token} {op : UnaryOp}
    (hnext : s.next? = some (token, t)) (hop : unaryOp? token.kind = some op)
    (ht : t.size < s.size) :
    prefixed s = ((prefixed t).map (.unary token op ·)).after ht := by
  rw [prefixed]
  split
  · next hnone =>
    rw [hnone] at hnext
    cases hnext
  · next token' t' hnext' =>
    cases hnext.symm.trans hnext'
    split
    · next hnone =>
      rw [hnone] at hop
      cases hop
    · next op' hop' =>
      cases hop.symm.trans hop'
      rfl

theorem prefixed_eq_suffixed {s : Cursor}
    (hop : ∀ token t, s.next? = some (token, t) → unaryOp? token.kind = none) :
    prefixed s = Layers.suffixed s := by
  rw [prefixed]
  split
  · rfl
  · next token t hnext =>
    split
    · rfl
    · next op hsome =>
      rw [hop token t hnext] at hsome
      cases hsome

/-- The operand of a unary operator takes every call and index expression after it, so that none is
left for the unary expression. -/
theorem expressionAbove_suffixPower {s : Cursor} (ih : ∀ t : Cursor, t.size < s.size → Agrees t) :
    s.expressionAbove suffixPower = prefixed s := by
  rw [expressionAbove]
  rcases next?_op?_cases unaryOp? s with hnone | ⟨token, t, op, hnext, hop⟩
  · have hwhole : above s.size 0 = fun u _ => equality u := by
      funext u hu
      exact (ih u hu).equality
    rw [prefixed_eq_suffixed hnone, Layers.suffixed, operand_eq_primary hnone]
    simp only [climb_suffixPower]
    exact congrArg (fun whole : Reader s.size (Expr Token) =>
      (primary s whole).andThen fun lhs t ht => suffixes whole s lhs t ht ht) hwhole
  · have ht : t.size < s.size := size_lt_of_next? hnext
    have hinner : t.expressionAbove op.power = prefixed t :=
      (expressionAbove_succ 10 (by decide) t).trans (ih t ht).prefixed
    have hpower : op.power ≤ suffixPower := by cases op <;> decide
    have hends : ((t.expressionAbove op.power).map (Expr.unary token op ·)).Ends fun _ u =>
        u.StopsAt suffixPower :=
      (ends_expressionAbove op.power t).map fun _ u hu => hu.mono hpower
    rw [operand_of_unaryOp? hnext hop ht, prefixed_of_unaryOp? hnext hop ht, ← hinner]
    refine ((hends.after ht).andThen_congr fun value u hu hstop => ?_).trans (Outcome.andThen_ok _)
    exact climb_of_stopsAt hstop

theorem agrees (s : Cursor) : Agrees s := by
  have ih : ∀ t : Cursor, t.size < s.size → Agrees t := fun t ht => agrees t
  have hprefixed : s.expressionAbove 10 = prefixed s :=
    calc
      s.expressionAbove 10 = s.expressionAbove 11 := (expressionAbove_succ 10 (by decide) s).symm
      _ = s.expressionAbove 12 := (expressionAbove_succ 11 (by decide) s).symm
      _ = s.expressionAbove 13 := (expressionAbove_succ 12 (by decide) s).symm
      _ = prefixed s := expressionAbove_suffixPower ih
  have hproduct : s.expressionAbove 8 = product s := by
    rw [← expressionAbove_succ 8 (by decide), product]
    exact expressionAbove_eq_level (by decide) opAt?_product hprefixed
      fun t ht => (ih t ht).prefixed
  have hsum : s.expressionAbove 6 = sum s := by
    rw [← expressionAbove_succ 6 (by decide), sum]
    exact expressionAbove_eq_level (by decide) opAt?_sum hproduct fun t ht => (ih t ht).product
  have hcomparison : s.expressionAbove 4 = comparison s := by
    rw [← expressionAbove_succ 4 (by decide), comparison]
    exact expressionAbove_eq_level (by decide) opAt?_comparison hsum fun t ht => (ih t ht).sum
  have hequality : s.expressionAbove 0 = equality s := by
    rw [← expressionAbove_succ 0 (by decide), ← expressionAbove_succ 1 (by decide),
      ← expressionAbove_succ 2 (by decide), equality]
    exact expressionAbove_eq_level (by decide) opAt?_equality hcomparison
      fun t ht => (ih t ht).comparison
  exact ⟨hprefixed, hproduct, hsum, hcomparison, hequality⟩
termination_by s.size

/-- Every text reads as the same expression, or stops at the same token with the same error, whether
by binding powers or by the layered grammar. -/
theorem expression_ofSource_eq_equality (source : String) :
    (Cursor.ofSource source).expression = equality (Cursor.ofSource source) :=
  (agrees (Cursor.ofSource source)).equality

end Scriptlet.Grammar
