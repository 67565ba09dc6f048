import Scriptlet.Proofs.Climbing
import Scriptlet.Proofs.Reading

/-! # Readings that succeed

What has to stand at a cursor for a reader to accept it. There is one rule for each way a phrase can
be made up; together they build the reading of a phrase from the readings of its parts, and so go
the way from the shape of a phrase to what the readers make of it.
-/

namespace Scriptlet.Grammar

open Cursor

namespace Outcome

variable {s t u : Cursor} {α β : Type}

/-- The phrase could be read, with this value, up to this cursor. -/
def Gives (x : Outcome s α) (value : α) (rest : Cursor) : Prop :=
  ∃ shorter, x = .ok value rest shorter

theorem Gives.andThen {x : Outcome s α} {f : α → (t : Cursor) → t.size < s.size → Outcome s β}
    {value : α} {result : β} (hx : x.Gives value t) (hf : ∀ ht, (f value t ht).Gives result u) :
    (x.andThen f).Gives result u := by
  obtain ⟨ht, rfl⟩ := hx
  exact hf ht

theorem Gives.exists_of_andThen {x : Outcome s α}
    {f : α → (t : Cursor) → t.size < s.size → Outcome s β} {result : β}
    (h : (x.andThen f).Gives result u) :
    ∃ value t ht, x.Gives value t ∧ (f value t ht).Gives result u := by
  obtain ⟨hu, h⟩ := h
  cases x with
  | ok value t ht => exact ⟨value, t, ht, ⟨ht, rfl⟩, hu, h⟩
  | fail error t within => cases h

theorem Gives.unique {x : Outcome s α} {value value' : α} (h : x.Gives value t)
    (h' : x.Gives value' u) : value = value' ∧ t = u := by
  obtain ⟨_, rfl⟩ := h
  obtain ⟨_, heq⟩ := h'
  cases heq
  exact ⟨rfl, rfl⟩

theorem Gives.map {x : Outcome s α} {value : α} (hx : x.Gives value t) (f : α → β) :
    (x.map f).Gives (f value) t :=
  hx.andThen fun ht => ⟨ht, rfl⟩

theorem Gives.exists_of_map {x : Outcome s α} {f : α → β} {result : β}
    (h : (x.map f).Gives result u) : ∃ value, x.Gives value u ∧ result = f value := by
  obtain ⟨value, t, ht, hx, _, heq⟩ := h.exists_of_andThen
  cases heq
  exact ⟨value, hx, rfl⟩

theorem Gives.of_after {x : Outcome t α} {value : α} {h : t.size < s.size}
    (hx : (x.after h).Gives value u) : x.Gives value u := by
  obtain ⟨_, heq⟩ := hx
  cases x with
  | ok _ _ hu =>
    cases heq
    exact ⟨hu, rfl⟩
  | fail _ _ _ => cases heq

theorem Gives.after {x : Outcome t α} {value : α} (hx : x.Gives value u) (h : t.size < s.size) :
    (x.after h).Gives value u := by
  obtain ⟨hu, rfl⟩ := hx
  exact ⟨_, rfl⟩

end Outcome

variable {s t u v w x y z : Cursor}

/-- The readers give the value at this cursor, however many tokens they count on. -/
def Yields {α : Type} (read : ∀ n, Reader n α) (s : Cursor) (value : α) (t : Cursor) : Prop :=
  ∀ n (hs : s.size < n), (read n s hs).Gives value t

theorem Cursor.Takes.size_lt {kind : Token.Kind} {token : Token} (h : s.Takes kind token t) :
    t.size < s.size :=
  size_of_eat? h

theorem gives_expect {kind : Token.Kind} {token : Token} (h : s.Takes kind token t) :
    (s.expect kind).Gives token t :=
  ⟨_, expect_of_some h⟩

theorem gives_binder {token : Token} (h : s.Takes .ident token t) :
    s.binder.Gives ⟨token, token.literal⟩ t :=
  (gives_expect h).map _

theorem Cursor.Takes.unique {kind kind' : Token.Kind} {token token' : Token}
    (h : s.Takes kind token t) (h' : s.Takes kind' token' u) :
    kind = kind' ∧ token = token' ∧ t = u := by
  cases h.next?_eq.symm.trans h'.next?_eq
  exact ⟨h.kind_eq.symm.trans h'.kind_eq, rfl, rfl⟩

theorem takes_of_gives_expect {kind : Token.Kind} {token : Token}
    (h : (s.expect kind).Gives token t) : s.Takes kind token t := by
  obtain ⟨_, h⟩ := h
  rw [expect] at h
  split at h
  · next heat =>
    cases h
    exact heat
  · cases h

theorem Cursor.Takes.eat?_eq_none {kind other : Token.Kind} {token : Token}
    (h : s.Takes kind token t) (hne : kind ≠ other) : s.eat? other = none := by
  have hkind : token.kind ≠ other := h.kind_eq ▸ hne
  simp [eat?, h.next?_eq, hkind]

/-! ### Lists -/

section Lists

variable {α : Type} {read : ∀ n, Reader n α} {closing : Token.Kind} {token comma : Token}
  {first : α} {rest : List α}

theorem yields_list_nil (h : s.Takes closing token t) :
    Yields (fun n => list (read n) closing) s [] t :=
  fun _ hs => ⟨_, list_of_some hs h⟩

theorem yields_list {values : List α} (hopen : s.eat? closing = none)
    (h : Yields (fun n => commaSeparated (read n) closing) s values t) :
    Yields (fun n => list (read n) closing) s values t := by
  intro n hs
  dsimp only
  rw [list_of_none hs hopen]
  exact h n hs

theorem yields_last (hclosing : closing ≠ .comma) (hfirst : Yields read s first t)
    (h : t.Takes closing token u) :
    Yields (fun n => commaSeparated (read n) closing) s [first] u := by
  intro n hs
  dsimp only
  rw [commaSeparated]
  refine (hfirst n hs).andThen fun ht => ?_
  split
  · next comma v hcomma =>
    rw [h.eat?_eq_none hclosing] at hcomma
    cases hcomma
  · exact ((gives_expect h).map _).after ht

theorem yields_more (hfirst : Yields read s first t) (h : t.Takes .comma comma u)
    (hrest : Yields (fun n => commaSeparated (read n) closing) u rest v) :
    Yields (fun n => commaSeparated (read n) closing) s (first :: rest) v := by
  intro n hs
  dsimp only
  rw [commaSeparated]
  refine (hfirst n hs).andThen fun ht => ?_
  split
  · next comma' u' hcomma =>
    cases h.symm.trans hcomma
    exact ((hrest n _).map _).after _
  · next hcomma => cases h.symm.trans hcomma

theorem commaSeparated_congr {m n : Nat} {item : Reader m α} {item' : Reader n α}
    (h : ∀ s hs hs', item s hs = item' s hs') (closing : Token.Kind) (s : Cursor)
    (hs : s.size < m) (hs' : s.size < n) :
    commaSeparated item closing s hs = commaSeparated item' closing s hs' := by
  rw [commaSeparated, commaSeparated, h s hs hs']
  refine congrArg _ (funext fun first => funext fun t => funext fun ht => ?_)
  split
  · next comma u hcomma =>
    have hu : u.size < s.size := Nat.lt_trans (size_of_eat? hcomma) ht
    dsimp only
    rw [commaSeparated_congr h closing u (Nat.lt_trans hu hs) (Nat.lt_trans hu hs')]
  · rfl
termination_by s.size

/-- A list is the same however many tokens its reader counts on. -/
theorem list_congr {m n : Nat} {item : Reader m α} {item' : Reader n α}
    (h : ∀ s hs hs', item s hs = item' s hs') (closing : Token.Kind) (s : Cursor)
    (hs : s.size < m) (hs' : s.size < n) :
    list item closing s hs = list item' closing s hs' := by
  rw [list, list, commaSeparated_congr h closing s hs hs']

end Lists

/-! ### Operands -/

/-- The operand that an expression begins with. -/
def Cursor.first (s : Cursor) : Outcome s (Expr Token) :=
  operand s (above s.size 0) fun op => above s.size op.power

theorem expressionAbove_eq_first (least : Nat) (s : Cursor) :
    s.expressionAbove least
      = s.first.andThen fun lhs t ht => climb (above s.size) least s lhs t ht ht := by
  rw [expressionAbove]
  rfl

/-- Where the kind of the upcoming token is known, it decides what the operand is. -/
theorem first_of_takes {kind : Token.Kind} {token : Token} (h : s.Takes kind token t) :
    ∃ literal span depth, token = ⟨kind, literal, span⟩ ∧ s = ⟨token :: t.tokens, depth⟩ ∧
      t = ⟨t.tokens, kind.depthAfter depth⟩ := by
  obtain ⟨tokens, depth⟩ := s
  obtain ⟨rest, after⟩ := t
  obtain ⟨kind', literal, span⟩ := token
  have hkind : kind' = kind := h.kind_eq
  have htokens : tokens = _ :: rest := h.tokens_eq
  have hdepth : after = kind.depthAfter depth := h.depth_eq
  subst hkind htokens hdepth
  exact ⟨literal, span, depth, rfl, rfl, rfl⟩

section Operands

variable {token closing opening word : Token}

theorem first_int {value : Int64} (h : s.Takes .int token t)
    (hvalue : integer? token.literal = some value) : s.first.Gives (.int token value) t := by
  obtain ⟨literal, span, depth, rfl, rfl, hrest⟩ := first_of_takes h
  rw [hrest]
  simp only [Cursor.first, operand, next?, Token.Kind.depthAfter, hvalue]
  exact ⟨_, rfl⟩

theorem first_name (h : s.Takes .ident token t) : s.first.Gives (.name token token.literal) t := by
  obtain ⟨literal, span, depth, rfl, rfl, hrest⟩ := first_of_takes h
  rw [hrest]
  exact ⟨_, rfl⟩

theorem first_string (h : s.Takes .string token t) :
    s.first.Gives (.string token token.literal) t := by
  obtain ⟨literal, span, depth, rfl, rfl, hrest⟩ := first_of_takes h
  rw [hrest]
  exact ⟨_, rfl⟩

def boolKind (value : Bool) : Token.Kind :=
  if value then .trueWord else .falseWord

theorem first_bool {value : Bool} (h : s.Takes (boolKind value) token t) :
    s.first.Gives (.bool token value) t := by
  obtain ⟨literal, span, depth, rfl, rfl, hrest⟩ := first_of_takes h
  rw [hrest]
  cases value <;> exact ⟨_, rfl⟩

theorem first_unary {op : UnaryOp} {operand : Expr Token} (h : s.Takes op.kind token t)
    (hoperand : (t.expressionAbove op.power).Gives operand u) :
    s.first.Gives (.unary token op operand) u := by
  obtain ⟨literal, span, depth, rfl, rfl, hrest⟩ := first_of_takes h
  rw [hrest] at hoperand
  cases op <;> exact (hoperand.map _).after (Nat.lt_succ_self _)

theorem first_group {inner : Expr Token} (h : s.Takes .leftParen opening t)
    (hinner : t.expression.Gives inner u) (hclosing : u.Takes .rightParen closing v) :
    s.first.Gives inner v := by
  obtain ⟨literal, span, depth, rfl, rfl, hrest⟩ := first_of_takes h
  rw [hrest] at hinner
  exact (hinner.andThen fun hu => ((gives_expect hclosing).map _).after hu).after
    (Nat.lt_succ_self _)

theorem first_array {elements : List (Expr Token)} (h : s.Takes .leftBracket token t)
    (helements : Yields (fun n => list (above n 0) .rightBracket) t elements u) :
    s.first.Gives (.array token elements) u := by
  obtain ⟨literal, span, depth, rfl, rfl, hrest⟩ := first_of_takes h
  rw [hrest] at helements
  exact ((helements _ (Nat.lt_succ_self _)).map _).after (Nat.lt_succ_self _)

theorem first_map {entries : List (Expr Token × Expr Token)} (h : s.Takes .leftBrace token t)
    (hentries : Yields (fun n => list (entry (above n 0)) .rightBrace) t entries u) :
    s.first.Gives (.map token entries) u := by
  obtain ⟨literal, span, depth, rfl, rfl, hrest⟩ := first_of_takes h
  rw [hrest] at hentries
  exact ((hentries _ (Nat.lt_succ_self _)).map _).after (Nat.lt_succ_self _)

theorem yields_entry {key value : Expr Token} {colon : Token} (hkey : s.expression.Gives key t)
    (hcolon : t.Takes .colon colon u) (hvalue : u.expression.Gives value v) :
    Yields (fun n => entry (above n 0)) s (key, value) v :=
  fun _ _ => hkey.andThen fun ht => ((gives_expect hcolon).after ht).andThen fun hu =>
    (Outcome.Gives.after hvalue hu).map _

theorem first_branch {condition : Expr Token} {consequence : Block Token}
    (h : s.Takes .ifWord token t) (hopening : t.Takes .leftParen opening u)
    (hcondition : u.expression.Gives condition v) (hclosing : v.Takes .rightParen closing w)
    (hconsequence : Yields (fun n => Cursor.block (above n 0)) w consequence x)
    (helse : x.eat? .elseWord = none) :
    s.first.Gives (.branch token condition consequence none) x := by
  obtain ⟨literal, span, depth, rfl, rfl, hrest⟩ := first_of_takes h
  rw [hrest] at hopening
  refine Outcome.Gives.after ((gives_expect hopening).andThen fun hu => ?_) (Nat.lt_succ_self _)
  refine (Outcome.Gives.after hcondition hu).andThen fun hv => ?_
  refine ((gives_expect hclosing).after hv).andThen fun hw => ?_
  refine ((hconsequence _ _).after hw).andThen fun hx => ?_
  split
  · next word y hword =>
    rw [helse] at hword
    cases hword
  · exact ⟨_, rfl⟩

theorem first_branchElse {condition : Expr Token} {consequence alternative : Block Token}
    (h : s.Takes .ifWord token t) (hopening : t.Takes .leftParen opening u)
    (hcondition : u.expression.Gives condition v) (hclosing : v.Takes .rightParen closing w)
    (hconsequence : Yields (fun n => Cursor.block (above n 0)) w consequence x)
    (hword : x.Takes .elseWord word y)
    (halternative : Yields (fun n => Cursor.block (above n 0)) y alternative z) :
    s.first.Gives (.branch token condition consequence (some alternative)) z := by
  obtain ⟨literal, span, depth, rfl, rfl, hrest⟩ := first_of_takes h
  rw [hrest] at hopening
  refine Outcome.Gives.after ((gives_expect hopening).andThen fun hu => ?_) (Nat.lt_succ_self _)
  refine (Outcome.Gives.after hcondition hu).andThen fun hv => ?_
  refine ((gives_expect hclosing).after hv).andThen fun hw => ?_
  refine ((hconsequence _ _).after hw).andThen fun hx => ?_
  split
  · next word' y' hword' =>
    cases hword.symm.trans hword'
    exact ((halternative _ _).after _).map _
  · next hnone => cases hword.symm.trans hnone

theorem first_function {parameters : List (Ident Token)} {body : Block Token}
    (h : s.Takes .fnWord token t) (hopening : t.Takes .leftParen opening u)
    (hparameters : Yields (fun n => list (fun s (_ : s.size < n) => s.binder) .rightParen) u
      parameters v)
    (hbody : Yields (fun n => Cursor.block (above n 0)) v body w) :
    s.first.Gives (.function token parameters body) w := by
  obtain ⟨literal, span, depth, rfl, rfl, hrest⟩ := first_of_takes h
  rw [hrest] at hopening
  refine Outcome.Gives.after ((gives_expect hopening).andThen fun hu => ?_) (Nat.lt_succ_self _)
  refine ((hparameters _ _).after hu).andThen fun hv => ?_
  exact ((hbody _ _).after hv).map _

end Operands

/-! ### Behind an operand -/

/-- Climbing at a power from `lhs` takes one suffix after another and comes to an expression. -/
inductive Climbs (least : Nat) : Expr Token → Cursor → Expr Token → Cursor → Prop
  | stop {lhs s} : s.StopsAt least → Climbs least lhs s lhs s
  | binary {lhs s t u v token kind op rhs value} : s.Takes kind token t →
      Suffix.ofKind? kind = some (.binary op) → least ≤ op.leftPower →
      (t.expressionAbove op.rightPower).Gives rhs u →
      Climbs least (.binary token op lhs rhs) u value v → Climbs least lhs s value v
  | call {lhs s t u v token arguments value} : s.Takes .leftParen token t → least ≤ suffixPower →
      Yields (fun n => list (above n 0) .rightParen) t arguments u →
      Climbs least (.call token lhs arguments) u value v → Climbs least lhs s value v
  | index {lhs s t u v w token closing position value} : s.Takes .leftBracket token t →
      least ≤ suffixPower → t.expression.Gives position u → u.Takes .rightBracket closing v →
      Climbs least (.index token lhs position) v value w → Climbs least lhs s value w

/-- In front of a parenthesis climbing goes on with the call. -/
theorem Climbs.of_call {least : Nat} {lhs value : Expr Token} {token : Token}
    {arguments : List (Expr Token)} (h : Climbs least lhs s value w)
    (htakes : s.Takes .leftParen token t) (hpower : least ≤ suffixPower)
    (harguments : Yields (fun n => list (above n 0) .rightParen) t arguments u) :
    Climbs least (.call token lhs arguments) u value w := by
  cases h with
  | stop hstop =>
    have hlt := hstop token t .call htakes.next?_eq (by rw [htakes.kind_eq]; rfl)
    exact absurd hpower (Nat.not_le.mpr hlt)
  | binary htakes' hkind _ _ _ =>
    obtain ⟨rfl, -, -⟩ := htakes.unique htakes'
    cases hkind
  | call htakes' _ harguments' hrest =>
    obtain ⟨-, rfl, rfl⟩ := htakes.unique htakes'
    have hn := Nat.lt_succ_self t.size
    obtain ⟨rfl, rfl⟩ := (harguments' _ hn).unique (harguments _ hn)
    exact hrest
  | index htakes' _ _ _ _ =>
    obtain ⟨hkind, -, -⟩ := htakes.unique htakes'
    cases hkind

theorem kind_of_call {kind : Token.Kind} (h : Suffix.ofKind? kind = some .call) :
    kind = .leftParen := by
  cases kind <;> cases h
  rfl

theorem kind_of_index {kind : Token.Kind} (h : Suffix.ofKind? kind = some .index) :
    kind = .leftBracket := by
  cases kind <;> cases h
  rfl

theorem climb_of_takes {n least : Nat} {origin : Cursor} {kind : Token.Kind} {token : Token}
    {suffix : Suffix} {lhs extended value : Expr Token} (h : s.Takes kind token t)
    (hkind : Suffix.ofKind? kind = some suffix) (hpower : least ≤ suffix.power)
    (ho : s.size < origin.size) (hs : s.size < n)
    (hsuffix : ∀ ht, (Cursor.suffixed (above n) token lhs suffix t ht).Gives extended u)
    (hclimb : ∀ origin hu hn, (climb (above n) least origin extended u hu hn).Gives value v) :
    (climb (above n) least origin lhs s ho hs).Gives value v := by
  rw [climb_of_power_ge ho hs h.size_lt h.next?_eq (h.kind_eq ▸ hkind) hpower]
  exact ((hsuffix _).andThen fun hu => hclimb t hu _).after _

theorem Climbs.gives {least : Nat} {lhs value : Expr Token} (h : Climbs least lhs s value t) :
    ∀ {n : Nat} (origin : Cursor) (ho : s.size < origin.size) (hs : s.size < n),
      (climb (above n) least origin lhs s ho hs).Gives value t := by
  induction h with
  | stop hstop =>
    intro n origin ho hs
    exact ⟨ho, climb_of_stopsAt hstop⟩
  | binary htakes hkind hpower hrhs _ ih =>
    intro n origin ho hs
    exact climb_of_takes htakes hkind hpower ho hs (fun _ => hrhs.map _) ih
  | call htakes hpower harguments _ ih =>
    intro n origin ho hs
    have hkind : Suffix.ofKind? .leftParen = some .call := rfl
    exact climb_of_takes htakes hkind hpower ho hs
      (fun ht => (harguments n ht).map _) ih
  | index htakes hpower hposition hclosing _ ih =>
    intro n origin ho hs
    have hkind : Suffix.ofKind? .leftBracket = some .index := rfl
    exact climb_of_takes htakes hkind hpower ho hs
      (fun _ => hposition.andThen fun hu => ((gives_expect hclosing).map _).after hu) ih

/-- Whatever climbing comes to, it comes to by taking one suffix after another. -/
theorem climbs_of_gives {n least : Nat} {lhs value : Expr Token} (origin s : Cursor)
    (ho : s.size < origin.size) (hs : s.size < n)
    (h : (climb (above n) least origin lhs s ho hs).Gives value t) :
    Climbs least lhs s value t := by
  rcases s.stopsAt_or_power_ge least with hstop | ⟨token, u, suffix, hnext, hkind, hpower⟩
  · rw [climb_of_stopsAt hstop] at h
    obtain ⟨_, heq⟩ := h
    cases heq
    exact .stop hstop
  · have hu : u.size < s.size := size_lt_of_next? hnext
    rw [climb_of_power_ge ho hs hu hnext hkind hpower] at h
    obtain ⟨extended, v, hv, hsuffix, hclimb⟩ := h.of_after.exists_of_andThen
    have ih := climbs_of_gives u v hv _ hclimb
    have htakes {kind : Token.Kind} (h : token.kind = kind) : s.Takes kind token u :=
      eat?_eq_some_iff.mpr ⟨hnext, h⟩
    cases suffix with
    | binary op =>
      obtain ⟨rhs, hrhs, rfl⟩ := hsuffix.exists_of_map
      exact .binary (htakes rfl) hkind hpower hrhs ih
    | call =>
      obtain ⟨arguments, harguments, rfl⟩ := hsuffix.exists_of_map
      refine .call (htakes (kind_of_call hkind)) hpower (fun m hm => ?_) ih
      have hsame : ∀ s hs hs', above m 0 s hs = above n 0 s hs' := fun _ _ _ => rfl
      dsimp only
      rw [list_congr hsame .rightParen u hm (Nat.lt_trans hu hs)]
      exact harguments
    | index =>
      obtain ⟨position, w, hw, hposition, hends⟩ := hsuffix.exists_of_andThen
      obtain ⟨closing, hclosing, rfl⟩ := hends.of_after.exists_of_map
      exact .index (htakes (kind_of_index hkind)) hpower hposition
        (takes_of_gives_expect hclosing) ih
termination_by s.size

/-- An expression from `s` on begins with `lhs`, up to `t`, and goes on from there. -/
def Opens (s : Cursor) (lhs : Expr Token) (t : Cursor) : Prop :=
  ∀ least ≤ suffixPower, ∀ value u,
    (s.expressionAbove least).Gives value u ↔ Climbs least lhs t value u

theorem opens_of_first {lhs : Expr Token} (h : s.first.Gives lhs t) : Opens s lhs t := by
  intro least _ value u
  rw [expressionAbove_eq_first]
  constructor
  · intro hgives
    obtain ⟨lhs', t', ht, hfirst, hclimb⟩ := hgives.exists_of_andThen
    obtain ⟨rfl, rfl⟩ := hfirst.unique h
    exact climbs_of_gives s _ ht ht hclimb
  · exact fun hclimb => h.andThen fun ht => hclimb.gives s ht ht

namespace Opens

variable {lhs : Expr Token} (h : Opens s lhs t)

include h

theorem gives {least : Nat} (hle : least ≤ suffixPower) (hstop : t.StopsAt least) :
    (s.expressionAbove least).Gives lhs t :=
  (h least hle lhs t).mpr (.stop hstop)

theorem expression (hstop : t.StopsAt 0) : s.expression.Gives lhs t :=
  h.gives (Nat.zero_le _) hstop

theorem call {token : Token} {arguments : List (Expr Token)} (htakes : t.Takes .leftParen token u)
    (harguments : Yields (fun n => list (above n 0) .rightParen) u arguments v) :
    Opens s (.call token lhs arguments) v := by
  intro least hle value w
  rw [h least hle value w]
  exact ⟨fun hclimb => hclimb.of_call htakes hle harguments, .call htakes hle harguments⟩

theorem binary {kind : Token.Kind} {token : Token} {op : BinaryOp} {rhs : Expr Token}
    (htakes : t.Takes kind token u) (hkind : Suffix.ofKind? kind = some (.binary op))
    (hrhs : (u.expressionAbove op.rightPower).Gives rhs v) (hstop : v.StopsAt 0) :
    s.expression.Gives (.binary token op lhs rhs) v :=
  (h 0 (Nat.zero_le _) _ v).mpr (.binary htakes hkind (Nat.zero_le _) hrhs (.stop hstop))

theorem index {token closing : Token} {position : Expr Token}
    (htakes : t.Takes .leftBracket token u) (hposition : u.expression.Gives position v)
    (hclosing : v.Takes .rightBracket closing w) (hstop : w.StopsAt 0) :
    s.expression.Gives (.index token lhs position) w :=
  (h 0 (Nat.zero_le _) _ w).mpr (.index htakes (Nat.zero_le _) hposition hclosing (.stop hstop))

end Opens

/-! ### Statements and blocks -/

section Statements

variable {token name sign : Token} {value : Expr Token}

theorem gives_terminated {stmt : Stmt Token} {x : Outcome s (Stmt Token)} (h : x.Gives stmt t) :
    x.terminated.Gives stmt (t.skip .semicolon) :=
  h.andThen fun _ => ⟨_, rfl⟩

theorem yields_bind (h : s.Takes .letWord token t) (hname : t.Takes .ident name u)
    (hsign : u.Takes .assign sign v) (hvalue : v.expression.Gives value w) :
    Yields (fun n => statement (above n 0)) s (.bind token ⟨name, name.literal⟩ value)
      (w.skip .semicolon) := by
  intro n hs
  simp only [statement, peek?_of_next? h.next?_eq, h.kind_eq]
  refine gives_terminated ((gives_expect h).andThen fun ht => ?_)
  refine ((gives_binder hname).after ht).andThen fun hu => ?_
  refine ((gives_expect hsign).after hu).andThen fun hv => ?_
  exact (Outcome.Gives.after hvalue hv).map _

theorem yields_leave (h : s.Takes .returnWord token t) (hend : t.endsReturn = true) :
    Yields (fun n => statement (above n 0)) s (.leave token none) (t.skip .semicolon) := by
  intro n hs
  simp only [statement, peek?_of_next? h.next?_eq, h.kind_eq]
  refine gives_terminated ((gives_expect h).andThen fun ht => ?_)
  rw [if_pos hend]
  exact ⟨ht, rfl⟩

theorem yields_leaveWith (h : s.Takes .returnWord token t) (hend : ¬t.endsReturn = true)
    (hvalue : t.expression.Gives value u) :
    Yields (fun n => statement (above n 0)) s (.leave token (some value)) (u.skip .semicolon) := by
  intro n hs
  simp only [statement, peek?_of_next? h.next?_eq, h.kind_eq]
  refine gives_terminated ((gives_expect h).andThen fun ht => ?_)
  rw [if_neg hend]
  exact (Outcome.Gives.map hvalue _).after ht

theorem yields_expr {kind : Token.Kind} (h : s.Takes kind token t) (hlet : kind ≠ .letWord)
    (hreturn : kind ≠ .returnWord) (hvalue : s.expression.Gives value u) :
    Yields (fun n => statement (above n 0)) s (.expr token value) (u.skip .semicolon) := by
  intro n hs
  simp only [statement, peek?_of_next? h.next?_eq, h.kind_eq]
  exact gives_terminated (Outcome.Gives.map hvalue _)

/-- The statements from a cursor to the closing brace, whatever they are read for. -/
def YieldsBody (s : Cursor) (stmts : List (Stmt Token)) (t : Cursor) : Prop :=
  ∀ (n : Nat) (origin : Cursor) (ho : s.size < origin.size) (hs : s.size < n),
    (statements (above n 0) origin s ho hs).Gives stmts t

theorem yieldsBody_nil (h : s.Takes .rightBrace token t) : YieldsBody s [] t :=
  fun _ _ ho hs => ⟨_, statements_of_closed ho hs h⟩

theorem yieldsBody_cons {first : Stmt Token} {rest : List (Stmt Token)} {kind : Token.Kind}
    (h : s.Takes kind token v) (hbrace : kind ≠ .rightBrace) (heof : kind ≠ .eof)
    (hfirst : Yields (fun n => statement (above n 0)) s first t) (hrest : YieldsBody t rest u) :
    YieldsBody s (first :: rest) u := by
  intro n origin ho hs
  have hend : ¬s.atEnd = true := by
    simp [atEnd, kind?, peek?_of_next? h.next?_eq, h.kind_eq, heof]
  rw [statements_of_more ho hs (h.eat?_eq_none hbrace) hend]
  exact ((hfirst n hs).andThen fun ht => (hrest n s ht _).map _).after ho

theorem yields_block {stmts : List (Stmt Token)} (h : s.Takes .leftBrace token t)
    (hbody : YieldsBody t stmts u) :
    Yields (fun n => Cursor.block (above n 0)) s (.mk token stmts) u :=
  fun n _ => (gives_expect h).andThen fun ht => (hbody n _ ht _).map _

end Statements

end Scriptlet.Grammar
