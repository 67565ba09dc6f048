import Mathlib.Data.Int.ModEq
import Scriptlet.Proofs.Failures

/-! # Exact integers

A tree of integers, signs, sums, differences and products has an exact value. Its evaluation wraps
around at every step, and ends in the one word that is congruent to the exact value.
-/

namespace Scriptlet

/-- The integer that a name is bound to. -/
def Store.integer? {α : Type} (store : Store α) (frame : Nat) (name : String) : Option Int :=
  match store.lookup frame name with
  | some (.int n) => some n.toInt
  | _ => none

theorem Store.exists_of_integer? {α : Type} {store : Store α} {frame : Nat} {name : String}
    {n : Int} (h : store.integer? frame name = some n) :
    ∃ word : Int64, store.lookup frame name = some (.int word) ∧ word.toInt = n := by
  unfold integer? at h
  split at h
  · next word hlookup => exact ⟨word, hlookup, Option.some.inj h⟩
  · cases h

/-- Exactly one word is congruent to an integer. -/
theorem toInt_modEq_iff {word : Int64} {n : Int} :
    word.toInt ≡ n [ZMOD 2 ^ 64] ↔ word = Int64.ofInt n := by
  rw [eq_comm (a := word), Int64.ofInt_eq_iff_bmod_eq_toInt]
  constructor
  · intro h
    calc
      n.bmod (2 ^ 64) = (n % (2 ^ 64 : Nat)).bmod (2 ^ 64) := (Int.emod_bmod _ _).symm
      _ = (word.toInt % (2 ^ 64 : Nat)).bmod (2 ^ 64) := congrArg (Int.bmod · _) h.symm
      _ = word.toInt.bmod (2 ^ 64) := Int.emod_bmod _ _
      _ = word.toInt := word.toInt_bmod
  · intro h
    rw [← h]
    exact Int.bmod_emod

theorem ofInt_tdiv_toInt (a b : Int64) : Int64.ofInt (a.toInt.tdiv b.toInt) = a / b :=
  (Int64.ofInt_eq_iff_bmod_eq_toInt _ _).mpr (Int64.toInt_div a b).symm

namespace Grammar

variable {α : Type}

/-- The exact operation of an operator that gives an integer for any two integers. -/
def BinaryOp.integral? : BinaryOp → Option (Int → Int → Int)
  | add => some (· + ·)
  | subtract => some (· - ·)
  | multiply => some (· * ·)
  | divide | less | greater | equal | notEqual => none

/-- The exact value of a tree, where names stand for the integers that they are bound to. There is
none if the tree contains anything but integers, names, signs, sums, differences and products. -/
def Expr.exactValue? (bound : String → Option Int) : Expr α → Option Int
  | .int _ value => some value.toInt
  | .name _ text => bound text
  | .unary _ .negate operand => return -(← operand.exactValue? bound)
  | .binary _ op lhs rhs => do
    let operation ← op.integral?
    return operation (← lhs.exactValue? bound) (← rhs.exactValue? bound)
  | _ => none

/-- Words are a ring, and taking an integer to its word respects all its operations. -/
theorem BinaryOp.binary_ofInt {op : BinaryOp} {f : Int → Int → Int} (h : op.integral? = some f)
    (m n : Int) : Value.binary op (.int (.ofInt m)) (.int (.ofInt n))
      = .ok (.int (.ofInt (f m n))) := by
  cases op with
  | add =>
    cases h
    rw [Int64.ofInt_add]
    rfl
  | subtract =>
    cases h
    rw [Int64.ofInt_sub]
    rfl
  | multiply =>
    cases h
    rw [Int64.ofInt_mul]
    rfl
  | divide | less | greater | equal | notEqual => cases h

section Evaluation

variable {call : α → Value → List Value → Run α Value} {frame : Nat} {store : Store α}

theorem Expr.eval_binary {lhs rhs : Expr α} {left right : Value}
    (hlhs : lhs.eval call frame store = some (.ok left, store))
    (hrhs : rhs.eval call frame store = some (.ok right, store)) (label : α) (op : BinaryOp) :
    (Expr.binary label op lhs rhs).eval call frame store
      = Run.ofExcept label (Value.binary op left right) store := by
  rw [Expr.eval, Run.bind_of_ok hlhs, Run.bind_of_ok hrhs]

theorem Expr.eval_of_exactValue? {expr : Expr α} {n : Int}
    (h : expr.exactValue? (store.integer? frame) = some n) :
    expr.eval call frame store = some (.ok (.int (.ofInt n)), store) := by
  fun_induction expr.exactValue? (store.integer? frame) generalizing n with
  | case1 label value =>
    cases h
    rw [Int64.ofInt_toInt]
    rfl
  | case2 label text =>
    obtain ⟨word, hlookup, rfl⟩ := Store.exists_of_integer? h
    rw [Expr.eval, Run.name_apply, hlookup, Int64.ofInt_toInt]
    rfl
  | case3 label operand ih =>
    obtain ⟨m, hm, hn⟩ := Option.bind_eq_some_iff.mp h
    cases hn
    rw [Expr.eval, Run.bind_of_ok (ih hm), Int64.ofInt_neg]
    rfl
  | case4 label op lhs rhs ihl ihr =>
    obtain ⟨f, hf, h⟩ := Option.bind_eq_some_iff.mp h
    obtain ⟨l, hl, h⟩ := Option.bind_eq_some_iff.mp h
    obtain ⟨r, hr, hn⟩ := Option.bind_eq_some_iff.mp h
    cases hn
    rw [eval_binary (ihl hl) (ihr hr), BinaryOp.binary_ofInt hf, Run.ofExcept_ok]
  | case5 => cases h

end Evaluation

/-- The run changes nothing and gives the one word that is congruent to the integer. -/
def Expr.GivesWord (limit frame : Nat) (store : Store Token) (expr : Expr Token) (n : Int) : Prop :=
  ∃ word : Int64, expr.run limit frame store = some (.ok (.int word), store) ∧
    ∀ other : Int64, other.toInt ≡ n [ZMOD 2 ^ 64] ↔ other = word

section Runs

variable (limit : Nat) {frame : Nat} {store : Store Token} {expr lhs rhs : Expr Token} {m n : Int}

theorem Expr.run_of_exactValue? (h : expr.exactValue? (store.integer? frame) = some n) :
    expr.run limit frame store = some (.ok (.int (.ofInt n)), store) := by
  rw [Expr.run, Run.finish_apply, eval_of_exactValue? h]
  rfl

theorem Expr.run_divide (hlhs : lhs.exactValue? (store.integer? frame) = some m)
    (hrhs : rhs.exactValue? (store.integer? frame) = some n) (label : Token) :
    (Expr.binary label .divide lhs rhs).run limit frame store = some (
      if Int64.ofInt n = 0 then .error ⟨.divisionByZero (.ofInt m), label.span⟩
      else .ok (.int (.ofInt m / .ofInt n)), store) := by
  rw [Expr.run, Run.finish_apply, eval_binary (eval_of_exactValue? hlhs) (eval_of_exactValue? hrhs)]
  rw [Value.binary, Value.arithmetic]
  split <;> rfl

end Runs

theorem Program.literal_of_binary {source : String} (herrors : (ofSource source).errors = [])
    {label : Token} {op : BinaryOp} {lhs rhs : Expr Token}
    (hnode : .expr (.binary label op lhs rhs) ∈ nodesOfStatements (ofSource source).statements) :
    label ∈ Token.stream source ∧ label.literal = op.symbol := by
  obtain ⟨htoken, hkind⟩ := signed_ofSource herrors _ hnode
  exact ⟨htoken, Token.literal_of_text? htoken (BinaryOp.text?_of_kind hkind)⟩

/-- Evaluation of integer trees is exact up to multiples of `2 ^ 64` and has no effect. A quotient
of two of them fails at its sign, and exactly if the divisor is zero; else it goes toward zero. -/
theorem run_exact (limit frame : Nat) (store : Store Token) :
    (∀ (expr : Expr Token) (n : Int), expr.exactValue? (store.integer? frame) = some n →
      expr.GivesWord limit frame store n) ∧
    ∀ (label : Token) (lhs rhs : Expr Token) (m n : Int),
      lhs.exactValue? (store.integer? frame) = some m →
      rhs.exactValue? (store.integer? frame) = some n →
      ∃ a b : Int64, lhs.run limit frame store = some (.ok (.int a), store) ∧
        rhs.run limit frame store = some (.ok (.int b), store) ∧
        (∀ (failure : Failure) (after : Store Token),
          (Expr.binary label .divide lhs rhs).run limit frame store = some (.error failure, after) ↔
            b = 0 ∧ failure = ⟨.divisionByZero a, label.span⟩ ∧ after = store) ∧
        (Fault.divisionByZero a).message
          = "Unknown operator: " ++ (toString a.toInt ++ " / 0 (division by zero)") ∧
        (∀ source, (Program.ofSource source).errors = [] →
          .expr (.binary label .divide lhs rhs)
            ∈ nodesOfStatements (Program.ofSource source).statements →
          label ∈ Token.stream source ∧ label.literal = "/") ∧
        (b ≠ 0 → (Expr.binary label .divide lhs rhs).GivesWord limit frame store
          (a.toInt.tdiv b.toInt)) := by
  refine ⟨fun expr n h => ⟨_, expr.run_of_exactValue? limit h, fun _ => toInt_modEq_iff⟩, ?_⟩
  intro label lhs rhs m n hlhs hrhs
  have hrun := Expr.run_divide limit hlhs hrhs label
  refine ⟨_, _, lhs.run_of_exactValue? limit hlhs, rhs.run_of_exactValue? limit hrhs,
    fun failure after => ?_, rfl,
    fun source herrors hnode => Program.literal_of_binary herrors hnode, fun hne => ?_⟩
  · rw [hrun]
    split
    · next hzero =>
      rw [and_iff_right hzero, Option.some.injEq, Prod.mk.injEq, Except.error.injEq,
        eq_comm (a := failure), eq_comm (a := after)]
    · next hne => exact iff_of_false nofun fun h => hne h.1
  · rw [if_neg hne] at hrun
    refine ⟨_, hrun, fun other => ?_⟩
    rw [toInt_modEq_iff, ofInt_tdiv_toInt]

/-- The least integer divided by the negative of one. -/
theorem run_exact_least :
    let store : Store Token := Store.initial.declare Store.globalFrame "low" (.int Int64.minValue)
    let token : Token := .eofAt 0
    let lhs : Expr Token := .name token "low"
    let rhs : Expr Token := .unary token .negate (.int token 1)
    lhs.exactValue? (store.integer? Store.globalFrame) = some (-2 ^ 63) ∧
      rhs.exactValue? (store.integer? Store.globalFrame) = some (-1) ∧
      (Expr.binary token .divide lhs rhs).run 0 Store.globalFrame store
        = some (.ok (.int Int64.minValue), store) := by
  intro store token lhs rhs
  have hlhs : lhs.exactValue? (store.integer? Store.globalFrame) = some (-2 ^ 63) := by
    decide +kernel
  have hrhs : rhs.exactValue? (store.integer? Store.globalFrame) = some (-1) := by
    decide +kernel
  obtain ⟨a, b, ha, hb, -, -, -, hquotient⟩ :=
    (run_exact 0 Store.globalFrame store).2 token lhs rhs _ _ hlhs hrhs
  cases (lhs.run_of_exactValue? 0 hlhs).symm.trans ha
  cases (rhs.run_of_exactValue? 0 hrhs).symm.trans hb
  obtain ⟨word, hrun, hword⟩ := hquotient (by decide)
  have hleast : Int64.minValue = word := (hword Int64.minValue).mp (by decide)
  exact ⟨hlhs, hrhs, hleast ▸ hrun⟩

end Grammar

end Scriptlet
