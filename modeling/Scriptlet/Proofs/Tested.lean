import Scriptlet.Proofs.Consumption
import Scriptlet.Proofs.Unambiguous

/-! # What an `if` tests

Where a conditional is read, its `if` is followed by a group, and the group by a brace. Parentheses
pair up in all that is read, and in canonical text too, so that the text alone tells where such a
group ends: a condition that can be read again is an operation.
-/

namespace Scriptlet.Grammar

open Token (Word)
open List (forall_mem_append forall_mem_cons forall_mem_singleton)

variable {α : Type}

/-! ### Parentheses -/

/-- The words behind the parenthesis that closes an open one, where `depth` more are to be closed
before it. -/
def behind : List Word → Nat → List Word
  | [], _ => []
  | word :: ws, depth =>
    if word.1 = .leftParen then behind ws (depth + 1)
    else if word.1 ≠ .rightParen then behind ws depth
    else if depth = 0 then ws else behind ws (depth - 1)

/-- Every parenthesis among the words has its counterpart among them. -/
def Balanced (ws : List Word) : Prop :=
  ∀ rest depth, behind (ws ++ rest) depth = behind rest depth

theorem behind_opening {word : Word} (h : word.1 = .leftParen) (ws : List Word) (depth : Nat) :
    behind (word :: ws) depth = behind ws (depth + 1) := by
  rw [behind, if_pos h]

theorem behind_closing {word : Word} (h : word.1 = .rightParen) (ws : List Word) (depth : Nat) :
    behind (word :: ws) depth = if depth = 0 then ws else behind ws (depth - 1) := by
  have hopening : word.1 ≠ .leftParen := by
    rw [h]
    decide
  rw [behind, if_neg hopening, if_neg (not_not.mpr h)]

namespace Balanced

variable {ws xs : List Word} {word opening closing : Word}

theorem nil : Balanced [] :=
  fun _ _ => rfl

theorem append (h : Balanced ws) (h' : Balanced xs) : Balanced (ws ++ xs) := by
  intro rest depth
  rw [List.append_assoc, h, h']

theorem cons (hword : word.1 ∉ [.leftParen, .rightParen]) (h : Balanced ws) :
    Balanced (word :: ws) := by
  intro rest depth
  simp only [List.mem_cons, List.not_mem_nil, or_false, not_or] at hword
  rw [List.cons_append, behind, if_neg hword.1, if_pos hword.2, h]

theorem append_cons (h : Balanced ws) (hword : word.1 ∉ [.leftParen, .rightParen])
    (h' : Balanced xs) : Balanced (ws ++ word :: xs) :=
  h.append (h'.cons hword)

theorem group (hopening : opening.1 = .leftParen) (h : Balanced ws)
    (hclosing : closing.1 = .rightParen) : Balanced (opening :: (ws ++ [closing])) := by
  intro rest depth
  rw [List.cons_append, behind_opening hopening, List.append_assoc, h, List.singleton_append,
    behind_closing hclosing]
  rfl

theorem separated {separator : Token.Kind} (hseparator : separator ∉ [.leftParen, .rightParen])
    {wss : List (List Word)} (h : ∀ ws ∈ wss, Balanced ws) :
    Balanced (separator.separated wss) := by
  induction wss with
  | nil => exact nil
  | cons ws wss ih =>
    obtain ⟨hfirst, hrest⟩ := forall_mem_cons.mp h
    cases wss with
    | nil => rwa [Token.Kind.separated_singleton]
    | cons _ _ =>
      rw [Token.Kind.separated_cons_cons]
      exact hfirst.append_cons hseparator (ih hrest)

theorem behind_append (h : Balanced ws) (hclosing : closing.1 = .rightParen) (rest : List Word) :
    behind (ws ++ closing :: rest) 0 = rest := by
  rw [h, behind_closing hclosing, if_pos rfl]

/-- A group ends in one place only. -/
theorem rest_eq (h : Balanced ws) (h' : Balanced xs) {closing' : Word} {rest rest' : List Word}
    (hclosing : closing.1 = .rightParen) (hclosing' : closing'.1 = .rightParen)
    (heq : ws ++ closing :: rest = xs ++ closing' :: rest') : rest = rest' := by
  rw [← h.behind_append hclosing rest, heq, h'.behind_append hclosing' rest']

end Balanced

/-! ### Groups in front of braces -/

/-- The words begin with a group and a brace behind it. -/
def BeginsTest (ws : List Word) : Prop :=
  ∃ opening inner closing brace rest, ws = opening :: (inner ++ closing :: brace :: rest) ∧
    opening.1 = .leftParen ∧ Balanced inner ∧ closing.1 = .rightParen ∧ brace.1 = .leftBrace

/-- Every `if` among the words has a group with a brace behind it. Words that follow may belong to
it. -/
def Tested (rest : List Word) : List Word → Prop
  | [] => True
  | word :: ws => (word.1 = .ifWord → BeginsTest (ws ++ rest)) ∧ Tested rest ws

theorem tested_append {rest ws xs : List Word} :
    Tested rest (ws ++ xs) ↔ Tested (xs ++ rest) ws ∧ Tested rest xs := by
  induction ws with
  | nil => exact (true_and _).symm.to_iff
  | cons word ws ih => rw [List.cons_append, Tested, Tested, ih, List.append_assoc, and_assoc]

theorem tested_of_separated {separator : Token.Kind} {wss : List (List Word)} {rest : List Word}
    (h : Tested rest (separator.separated wss)) : ∀ ws ∈ wss, ∃ xs, Tested xs ws := by
  induction wss generalizing rest with
  | nil => exact nofun
  | cons ws wss ih =>
    cases wss with
    | nil =>
      rw [Token.Kind.separated_singleton] at h
      exact forall_mem_singleton.mpr ⟨rest, h⟩
    | cons _ _ =>
      rw [Token.Kind.separated_cons_cons, tested_append] at h
      exact forall_mem_cons.mpr ⟨⟨_, h.1⟩, ih h.2.2⟩

theorem tested_of_flatten {wss : List (List Word)} {rest : List Word}
    (h : Tested rest wss.flatten) : ∀ ws ∈ wss, ∃ xs, Tested xs ws := by
  induction wss generalizing rest with
  | nil => exact nofun
  | cons ws wss ih =>
    obtain ⟨hfirst, hrest⟩ := tested_append.mp h
    exact forall_mem_cons.mpr ⟨⟨_, hfirst⟩, ih hrest⟩

/-! ### What is read -/

/-- Parentheses pair up between the cursors, and every `if` there has its group. -/
def Cursor.Pairs (s t : Cursor) : Prop :=
  ∃ ws, s.words = ws ++ t.words ∧ Balanced ws ∧ Tested t.words ws

open Cursor (Pairs)

variable {s t u v w : Cursor} {kind : Token.Kind} {token opening closing : Token}

theorem Cursor.Takes.words_eq (h : s.Takes kind token t) :
    s.words = token.word :: t.words ∧ token.word.1 = kind :=
  ⟨congrArg (List.map Token.word) h.tokens_eq, h.kind_eq⟩

theorem Cursor.Pairs.refl (s : Cursor) : Pairs s s :=
  ⟨[], rfl, .nil, trivial⟩

theorem Cursor.Pairs.trans (h : Pairs s t) (h' : Pairs t u) : Pairs s u := by
  obtain ⟨ws, hs, hbalanced, htested⟩ := h
  obtain ⟨xs, ht, hbalanced', htested'⟩ := h'
  refine ⟨ws ++ xs, by rw [hs, ht, List.append_assoc], hbalanced.append hbalanced', ?_⟩
  exact tested_append.mpr ⟨ht ▸ htested, htested'⟩

theorem Cursor.Takes.pairs (h : s.Takes kind token t)
    (hkind : kind ∉ [.leftParen, .rightParen, .ifWord]) : Pairs s t := by
  obtain ⟨hs, hword⟩ := h.words_eq
  rw [← hword] at hkind
  have hparen : token.word.1 ∉ [.leftParen, .rightParen] := fun hmem => hkind (by simp_all)
  have hif : token.word.1 ≠ .ifWord := fun heq => hkind (by simp [heq])
  exact ⟨[token.word], hs, Balanced.nil.cons hparen, fun heq => absurd heq hif, trivial⟩

theorem Cursor.Pairs.group (hopening : s.Takes .leftParen opening t) (h : Pairs t u)
    (hclosing : u.Takes .rightParen closing v) : Pairs s v := by
  obtain ⟨hs, hopens⟩ := hopening.words_eq
  obtain ⟨hu, hcloses⟩ := hclosing.words_eq
  obtain ⟨ws, ht, hbalanced, htested⟩ := h
  refine ⟨opening.word :: (ws ++ [closing.word]), ?_, .group hopens hbalanced hcloses, ?_⟩
  · rw [hs, ht, hu, List.cons_append, List.append_assoc, List.singleton_append]
  · refine ⟨fun heq => absurd (hopens.symm.trans heq) (by decide), tested_append.mpr ⟨by
      rwa [List.singleton_append, ← hu], ?_⟩⟩
    exact ⟨fun heq => absurd (hcloses.symm.trans heq) (by decide), trivial⟩

theorem Cursor.Pairs.skip (kind : Token.Kind) (hkind : kind ∉ [.leftParen, .rightParen, .ifWord])
    (s : Cursor) : Pairs s (s.skip kind) := by
  rcases s.skip_cases kind with hsame | ⟨token, htakes⟩
  · rw [hsame]
    exact .refl s
  · exact htakes.pairs hkind

/-- An `if` with the group and the brace that stand behind it. -/
theorem Cursor.Pairs.test {word brace : Token} (hword : s.Takes .ifWord word t)
    (hopening : t.Takes .leftParen opening u) (h : Pairs u v)
    (hclosing : v.Takes .rightParen closing w) {x : Cursor} (hbrace : w.Takes .leftBrace brace x) :
    Pairs s w := by
  have hgroup := Pairs.group hopening h hclosing
  obtain ⟨hs, hif⟩ := hword.words_eq
  obtain ⟨ws, ht, hbalanced, htested⟩ := hgroup
  have hparen : word.word.1 ∉ [.leftParen, .rightParen] := by
    rw [hif]
    decide
  refine ⟨word.word :: ws, by rw [hs, ht, List.cons_append], hbalanced.cons hparen, fun _ => ?_,
    htested⟩
  obtain ⟨xs, hu, hinner, -⟩ := h
  obtain ⟨ht', hopens⟩ := hopening.words_eq
  obtain ⟨hv, hcloses⟩ := hclosing.words_eq
  obtain ⟨hw, hbraces⟩ := hbrace.words_eq
  refine ⟨opening.word, xs, closing.word, brace.word, x.words, ?_, hopens, hinner, hcloses, hbraces⟩
  rw [← ht, ht', hu, hv, hw]

/-- Parentheses pair up in a phrase; in a list, without the one that closes it. -/
def Phrase.Pairs : Phrase → Cursor → Cursor → Prop
  | .items closing _, s, t => ∃ u token, s.Pairs u ∧ u.Takes closing token t
  | .block _, s, t => ∃ u token, s.Takes .leftBrace token u ∧ u.Pairs t
  | _, s, t => s.Pairs t

theorem pairs_of_items {closing : Token.Kind}
    (hclosing : closing ∉ [.leftParen, .rightParen, .ifWord]) {parts : List Item}
    (h : (Phrase.items closing parts).Pairs s t) : Pairs s t := by
  obtain ⟨u, token, hpairs, htakes⟩ := h
  exact hpairs.trans (htakes.pairs hclosing)

theorem pairs_of_block {block : Block Token} (h : (Phrase.block block).Pairs s t) : Pairs s t := by
  obtain ⟨u, token, htakes, hpairs⟩ := h
  exact (htakes.pairs (by decide)).trans hpairs

theorem Reads.pairs {phrase : Phrase} (h : Reads s phrase t) : phrase.Pairs s t := by
  induction h with
  | int h _ | name h | string h | trueWord h | falseWord h | binder h | leave h _ | bodyClosed h =>
    exact h.pairs (by decide)
  | @unary _ _ _ _ op _ h _ hoperand => exact (h.pairs (by cases op <;> decide)).trans hoperand
  | group hopening _ hclosing hinner => exact .group hopening hinner hclosing
  | array htoken _ helements =>
    exact (htoken.pairs (by decide)).trans (pairs_of_items (by decide) helements)
  | map htoken _ hentries =>
    exact (htoken.pairs (by decide)).trans (pairs_of_items (by decide) hentries)
  | branch hword hopening _ hclosing _ hcondition hconsequence =>
    have hblock := pairs_of_block hconsequence
    obtain ⟨_, _, hbrace, -⟩ := hconsequence
    exact (Cursor.Pairs.test hword hopening hcondition hclosing hbrace).trans hblock
  | branchElse hword hopening _ hclosing _ helse _ hcondition hconsequence halternative =>
    have hblock := pairs_of_block hconsequence
    obtain ⟨_, _, hbrace, -⟩ := hconsequence
    refine (Cursor.Pairs.test hword hopening hcondition hclosing hbrace).trans (hblock.trans ?_)
    exact (helse.pairs (by decide)).trans (pairs_of_block halternative)
  | function htoken hopening _ _ hparameters hbody =>
    obtain ⟨_, _, hinner, hclosing⟩ := hparameters
    refine (htoken.pairs (by decide)).trans ?_
    exact (Cursor.Pairs.group hopening hinner hclosing).trans (pairs_of_block hbody)
  | binary _ htoken hop _ hlhs hrhs =>
    refine hlhs.trans ((htoken.pairs ?_).trans hrhs)
    rintro hkind
    simp only [List.mem_cons, List.not_mem_nil, or_false] at hkind
    rcases hkind with rfl | rfl | rfl <;> cases hop
  | call _ htoken _ hcallee harguments =>
    obtain ⟨_, _, hinner, hclosing⟩ := harguments
    exact hcallee.trans (.group htoken hinner hclosing)
  | index _ htoken _ hclosing hcollection hposition =>
    refine hcollection.trans ((htoken.pairs (by decide)).trans ?_)
    exact hposition.trans (hclosing.pairs (by decide))
  | entry _ hcolon _ hkey hvalue => exact hkey.trans ((hcolon.pairs (by decide)).trans hvalue)
  | noItems _ hclosing => exact ⟨_, _, .refl _, hclosing⟩
  | lastItem _ _ hclosing hfirst => exact ⟨_, _, hfirst, hclosing⟩
  | moreItems _ hcomma _ hfirst hrest =>
    obtain ⟨_, _, hothers, hclosing⟩ := hrest
    exact ⟨_, _, hfirst.trans ((hcomma.pairs (by decide)).trans hothers), hclosing⟩
  | bind htoken hname hsign _ hvalue =>
    refine (htoken.pairs (by decide)).trans ((hname.pairs (by decide)).trans ?_)
    exact (hsign.pairs (by decide)).trans hvalue
  | leaveWith h _ hvalue => exact (h.pairs (by decide)).trans hvalue
  | exprStmt _ _ hvalue => exact hvalue
  | bodyEnded _ => exact .refl _
  | bodyMore _ _ hfirst hrest =>
    exact hfirst.trans ((Cursor.Pairs.skip _ (by decide) _).trans hrest)
  | block htoken _ hbody => exact ⟨_, _, htoken, hbody⟩

theorem ReadsProgram.pairs {stmts : List (Stmt Token)} (h : ReadsProgram s stmts t) :
    Pairs s t := by
  induction h with
  | done _ => exact .refl _
  | more hfirst _ ih => exact hfirst.pairs.trans ((Cursor.Pairs.skip _ (by decide) _).trans ih)

theorem Program.tested_ofSource {source : String} (h : (ofSource source).errors = []) :
    Tested [] (Cursor.ofSource source).words := by
  obtain ⟨ws, hwords, -, htested⟩ := (reads_program (Cursor.ofSource source) h).pairs
  obtain ⟨last, hlast, hkind⟩ := (crosses_program (Cursor.ofSource source)).1.tokens_eq_of_atEnd
    (atEnd_program _)
  have hend : (Cursor.ofSource source).program.2.words = [last.word] :=
    congrArg (List.map Token.word) hlast
  rw [hwords, tested_append, List.append_nil]
  refine ⟨htested, hend ▸ ⟨fun heq => ?_, trivial⟩⟩
  exact absurd (hkind.symm.trans heq) (by decide)

/-! ### Canonical text -/

theorem UnaryOp.kind_notMem_parens (op : UnaryOp) : op.kind ∉ [.leftParen, .rightParen] := by
  cases op <;> decide

theorem BinaryOp.kind_notMem_parens (op : BinaryOp) : op.kind ∉ [.leftParen, .rightParen] := by
  cases op <;> decide

theorem balanced_grouped {ws : List Word} (h : Balanced ws) : Balanced (grouped ws) :=
  .group rfl h rfl

mutual

theorem Expr.balanced_spelling : ∀ expr : Expr α, Balanced expr.spelling
  | .int _ _ | .name _ _ | .string _ _ => Balanced.nil.cons (by simp)
  | .bool _ value => Balanced.nil.cons (by cases value <;> decide)
  | .array _ elements =>
    ((Balanced.separated (by decide) (balanced_spellAll elements)).append_cons (by decide)
      .nil).cons (by decide)
  | .map _ entries =>
    ((Balanced.separated (by decide) (balanced_spellEntries entries)).append_cons (by decide)
      .nil).cons (by decide)
  | .unary _ op operand => balanced_grouped (operand.balanced_spelling.cons op.kind_notMem_parens)
  | .binary _ op lhs rhs =>
    balanced_grouped (lhs.balanced_spelling.append_cons op.kind_notMem_parens rhs.balanced_spelling)
  | .branch _ condition consequence alternative =>
    (condition.balanced_spelling.append (consequence.balanced_spelling.append
      (balanced_spellAlternative alternative))).cons (by decide)
  | .function _ parameters body => by
    have hparameters : Balanced (Token.Kind.comma.separated
        (parameters.map fun parameter => [(.ident, parameter.name)])) :=
      .separated (by decide) (List.forall_mem_map.mpr fun _ _ => Balanced.nil.cons (by simp))
    have hbody := (balanced_grouped hparameters).append body.balanced_spelling
    rw [grouped, List.cons_append, List.append_assoc, List.singleton_append] at hbody
    exact hbody.cons (by decide)
  | .call _ callee arguments =>
    callee.balanced_spelling.append
      (balanced_grouped (.separated (by decide) (balanced_spellAll arguments)))
  | .index _ collection position =>
    balanced_grouped (collection.balanced_spelling.append_cons (by decide)
      (position.balanced_spelling.append_cons (by decide) .nil))

theorem balanced_spellAll : ∀ values : List (Expr α), ∀ ws ∈ spellAll values, Balanced ws
  | [] => nofun
  | expr :: rest => forall_mem_cons.mpr ⟨expr.balanced_spelling, balanced_spellAll rest⟩

theorem balanced_spellEntries : ∀ entries : List (Expr α × Expr α),
    ∀ ws ∈ spellEntries entries, Balanced ws
  | [] => nofun
  | (key, value) :: rest => forall_mem_cons.mpr
    ⟨key.balanced_spelling.append_cons (by decide) value.balanced_spelling,
      balanced_spellEntries rest⟩

theorem balanced_spellAlternative : ∀ alternative : Option (Block α),
    Balanced (spellAlternative alternative)
  | none => .nil
  | some block => block.balanced_spelling.cons (by decide)

theorem Block.balanced_spelling : ∀ block : Block α, Balanced block.spelling
  | .mk _ body =>
    ((Balanced.separated (by decide) (balanced_spellStatements body)).append_cons (by decide)
      .nil).cons (by decide)

theorem Stmt.balanced_spelling : ∀ stmt : Stmt α, Balanced stmt.spelling
  | .bind _ _ value =>
    ((value.balanced_spelling.cons (by decide)).cons (by simp)).cons (by decide)
  | .leave _ none => Balanced.nil.cons (by decide)
  | .leave _ (some value) => value.balanced_spelling.cons (by decide)
  | .expr _ value => value.balanced_spelling
  | .block inner => inner.balanced_spelling

theorem balanced_spellStatements : ∀ stmts : List (Stmt α),
    ∀ ws ∈ spellStatements stmts, Balanced ws
  | [] => nofun
  | stmt :: rest => forall_mem_cons.mpr ⟨stmt.balanced_spelling, balanced_spellStatements rest⟩

end

/-- An operation brings its parentheses along, and nothing else but a call can begin with one. -/
theorem Expr.spelling_cases {expr : Expr α} (h : expr.isCall = false) :
    (expr.isOperation = true ∧ ∃ ws, expr.spelling = grouped ws ∧ Balanced ws) ∨
      ∃ first ws, expr.spelling = first :: ws ∧ first.1 ≠ .leftParen := by
  cases expr with
  | unary _ op operand =>
    exact .inl ⟨rfl, _, rfl, operand.balanced_spelling.cons op.kind_notMem_parens⟩
  | binary _ op lhs rhs =>
    exact .inl ⟨rfl, _, rfl, lhs.balanced_spelling.append_cons op.kind_notMem_parens
      rhs.balanced_spelling⟩
  | index _ collection position =>
    exact .inl ⟨rfl, _, rfl, collection.balanced_spelling.append_cons (by decide)
      (position.balanced_spelling.append_cons (by decide) .nil)⟩
  | bool _ value => exact .inr ⟨_, _, rfl, by cases value <;> decide⟩
  | call _ _ _ => cases h
  | _ => exact .inr ⟨_, _, rfl, nofun⟩

theorem Expr.root_of_spine_eq_nil {expr : Expr α} (h : expr.spine = []) : expr.root = expr := by
  cases expr with
  | call _ _ _ => exact absurd h (List.append_ne_nil_of_right_ne_nil _ (List.cons_ne_nil _ _))
  | _ => rfl

/-- What begins as a test is an operation: where a call begins with a group, another group follows
it. -/
theorem Expr.isOperation_of_beginsTest {condition : Expr α} {ws : List Word}
    (h : BeginsTest (condition.spelling ++ ws)) : condition.isOperation = true := by
  obtain ⟨opening, inner, closing, brace', rest, heq, hopening, hinner, hclosing, hbrace'⟩ := h
  rw [condition.spelling_eq_append, List.append_assoc] at heq
  rcases Expr.spelling_cases condition.isCall_root with ⟨hroot, xs, hspelling, hxs⟩ | hroot
  · rw [hspelling, grouped, List.cons_append, List.append_assoc, List.singleton_append] at heq
    have hbehind := hxs.rest_eq hinner rfl hclosing (List.cons.inj heq).2
    cases hspine : condition.spine with
    | nil => rwa [Expr.root_of_spine_eq_nil hspine] at hroot
    | cons arguments spine =>
      rw [hspine] at hbehind
      obtain ⟨rfl, -⟩ := List.cons.inj hbehind
      cases hbrace'
  · obtain ⟨first, xs, hspelling, hfirst⟩ := hroot
    rw [hspelling] at heq
    obtain ⟨rfl, -⟩ := List.cons.inj heq
    exact absurd hopening hfirst

mutual

/-- Where every `if` in the spelling of a tree has its group, every conditional in the tree tests an
operation. -/
theorem Expr.tests_of_tested : ∀ (expr : Expr α) {rest : List Word}, Tested rest expr.spelling →
    ∀ node ∈ expr.nodes, node.testsOperation = true
  | .int _ _, _, _ | .bool _ _, _, _ | .name _ _, _, _ | .string _ _, _, _ =>
    forall_mem_singleton.mpr rfl
  | .array _ elements, _, h =>
    forall_mem_cons.mpr ⟨rfl, testsAll elements (tested_of_separated (tested_append.mp h.2).1)⟩
  | .map _ entries, _, h =>
    forall_mem_cons.mpr ⟨rfl, testsEntries entries (tested_of_separated (tested_append.mp h.2).1)⟩
  | .unary _ _ operand, _, h =>
    forall_mem_cons.mpr ⟨rfl, operand.tests_of_tested (tested_append.mp h.2).1.2⟩
  | .binary _ _ lhs rhs, _, h => by
    obtain ⟨hlhs, hrhs⟩ := tested_append.mp (tested_append.mp h.2).1
    exact forall_mem_cons.mpr ⟨rfl, forall_mem_append.mpr
      ⟨lhs.tests_of_tested hlhs, rhs.tests_of_tested hrhs.2⟩⟩
  | .branch _ condition consequence alternative, _, h => by
    obtain ⟨htest, h⟩ := h
    obtain ⟨hcondition, h⟩ := tested_append.mp h
    obtain ⟨hconsequence, halternative⟩ := tested_append.mp h
    have hoperation : condition.isOperation = true := by
      rw [List.append_assoc] at htest
      exact Expr.isOperation_of_beginsTest (htest rfl)
    exact forall_mem_cons.mpr ⟨hoperation, forall_mem_append.mpr ⟨forall_mem_append.mpr
      ⟨condition.tests_of_tested hcondition, consequence.tests_of_tested hconsequence⟩,
      testsAlternative alternative halternative⟩⟩
  | .function _ parameters body, _, h => by
    have hbody := body.tests_of_tested (tested_append.mp h.2.2).2.2
    exact forall_mem_cons.mpr ⟨rfl, forall_mem_append.mpr
      ⟨List.forall_mem_map.mpr fun _ _ => rfl, hbody⟩⟩
  | .call _ callee arguments, _, h => by
    obtain ⟨hcallee, h⟩ := tested_append.mp h
    exact forall_mem_cons.mpr ⟨rfl, forall_mem_append.mpr ⟨callee.tests_of_tested hcallee,
      testsAll arguments (tested_of_separated (tested_append.mp h.2).1)⟩⟩
  | .index _ collection position, _, h => by
    obtain ⟨hcollection, hposition⟩ := tested_append.mp (tested_append.mp h.2).1
    exact forall_mem_cons.mpr ⟨rfl, forall_mem_append.mpr ⟨collection.tests_of_tested hcollection,
      position.tests_of_tested (tested_append.mp hposition.2).1⟩⟩

theorem testsAll : ∀ values : List (Expr α), (∀ ws ∈ spellAll values, ∃ rest, Tested rest ws) →
    ∀ node ∈ nodesOfAll values, node.testsOperation = true
  | [], _ => nofun
  | expr :: others, h => by
    obtain ⟨⟨_, hexpr⟩, hothers⟩ := forall_mem_cons.mp h
    exact forall_mem_append.mpr ⟨expr.tests_of_tested hexpr, testsAll others hothers⟩

theorem testsEntries : ∀ entries : List (Expr α × Expr α),
    (∀ ws ∈ spellEntries entries, ∃ rest, Tested rest ws) →
    ∀ node ∈ nodesOfEntries entries, node.testsOperation = true
  | [], _ => nofun
  | (key, value) :: others, h => by
    obtain ⟨⟨_, hentry⟩, hothers⟩ := forall_mem_cons.mp h
    obtain ⟨hkey, hvalue⟩ := tested_append.mp hentry
    exact forall_mem_append.mpr ⟨forall_mem_append.mpr
      ⟨key.tests_of_tested hkey, value.tests_of_tested hvalue.2⟩, testsEntries others hothers⟩

theorem testsAlternative : ∀ (alternative : Option (Block α)) {rest : List Word},
    Tested rest (spellAlternative alternative) →
    ∀ node ∈ nodesOfAlternative alternative, node.testsOperation = true
  | none, _, _ => nofun
  | some block, _, h => block.tests_of_tested h.2

theorem Block.tests_of_tested : ∀ (block : Block α) {rest : List Word},
    Tested rest block.spelling → ∀ node ∈ block.nodes, node.testsOperation = true
  | .mk _ body, _, h => testsStatements body (tested_of_separated (tested_append.mp h.2).1)

theorem Stmt.tests_of_tested : ∀ (stmt : Stmt α) {rest : List Word}, Tested rest stmt.spelling →
    ∀ node ∈ stmt.nodes, node.testsOperation = true
  | .bind _ _ value, _, h =>
    forall_mem_cons.mpr ⟨rfl, forall_mem_cons.mpr ⟨rfl, value.tests_of_tested h.2.2.2⟩⟩
  | .leave _ none, _, _ => forall_mem_singleton.mpr rfl
  | .leave _ (some value), _, h => forall_mem_cons.mpr ⟨rfl, value.tests_of_tested h.2⟩
  | .expr _ value, _, h => forall_mem_cons.mpr ⟨rfl, value.tests_of_tested h⟩
  | .block inner, _, h => forall_mem_cons.mpr ⟨rfl, inner.tests_of_tested h⟩

theorem testsStatements : ∀ stmts : List (Stmt α),
    (∀ ws ∈ spellStatements stmts, ∃ rest, Tested rest ws) →
    ∀ node ∈ nodesOfStatements stmts, node.testsOperation = true
  | [], _ => nofun
  | stmt :: others, h => by
    obtain ⟨⟨_, hstmt⟩, hothers⟩ := forall_mem_cons.mp h
    exact forall_mem_append.mpr ⟨stmt.tests_of_tested hstmt, testsStatements others hothers⟩

end

end Scriptlet.Grammar
