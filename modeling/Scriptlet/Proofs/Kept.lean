import Scriptlet.Proofs.Reading
import Scriptlet.Proofs.Stream

/-! # The tokens that trees keep

A tree that was read from a source keeps the tokens it is labelled by. Listed in the order of the
source, these are the words, literals, operators and opening delimiters among the tokens that were
read, each once; of the opening parentheses only those of calls are kept.
-/

namespace Scriptlet.Grammar

mutual

/-- The labels of a tree in the order in which they stand in the source. -/
def Expr.kept : Expr Token → List Token
  | .int token _ | .bool token _ | .name token _ | .string token _ => [token]
  | .array token elements => token :: keptAll elements
  | .map token entries => token :: keptEntries entries
  | .unary token _ operand => token :: operand.kept
  | .binary token _ lhs rhs => lhs.kept ++ token :: rhs.kept
  | .branch token condition consequence alternative =>
    token :: condition.kept ++ consequence.kept ++ keptAlternative alternative
  | .function token parameters body => token :: parameters.map (·.label) ++ body.kept
  | .call token callee arguments => callee.kept ++ token :: keptAll arguments
  | .index token collection position => collection.kept ++ token :: position.kept

def keptAll : List (Expr Token) → List Token
  | [] => []
  | expr :: rest => expr.kept ++ keptAll rest

def keptEntries : List (Expr Token × Expr Token) → List Token
  | [] => []
  | (key, value) :: rest => key.kept ++ value.kept ++ keptEntries rest

def keptAlternative : Option (Block Token) → List Token
  | none => []
  | some block => block.kept

def Block.kept : Block Token → List Token
  | .mk token body => token :: keptStatements body

/-- An expression that stands as a statement adds nothing of its own. -/
def Stmt.kept : Stmt Token → List Token
  | .bind token target value => token :: target.label :: value.kept
  | .leave token none => [token]
  | .leave token (some value) => token :: value.kept
  | .expr _ value => value.kept
  | .block inner => inner.kept

def keptStatements : List (Stmt Token) → List Token
  | [] => []
  | stmt :: rest => stmt.kept ++ keptStatements rest

end

def Item.kept : Item → List Token
  | .expr value => value.kept
  | .entry key value => key.kept ++ value.kept
  | .binder ident => [ident.label]

def Phrase.kept : Phrase → List Token
  | .item part => part.kept
  | .items _ parts => parts.flatMap Item.kept
  | .stmt part => part.kept
  | .body parts => keptStatements parts
  | .block part => part.kept

theorem flatMap_kept_expr (values : List (Expr Token)) :
    (values.map Item.expr).flatMap Item.kept = keptAll values := by
  induction values with
  | nil => rfl
  | cons first rest ih => simp only [List.map_cons, List.flatMap_cons, ih, Item.kept, keptAll]

theorem flatMap_kept_entry (entries : List (Expr Token × Expr Token)) :
    (entries.map fun pair => Item.entry pair.1 pair.2).flatMap Item.kept = keptEntries entries := by
  induction entries with
  | nil => rfl
  | cons first rest ih => simp only [List.map_cons, List.flatMap_cons, ih, Item.kept, keptEntries]

theorem flatMap_kept_binder (parameters : List (Ident Token)) :
    (parameters.map Item.binder).flatMap Item.kept = parameters.map (·.label) := by
  induction parameters with
  | nil => rfl
  | cons first rest ih =>
    simp only [List.map_cons, List.flatMap_cons, ih, Item.kept, List.singleton_append]

def keptKinds : List Token.Kind :=
  [.ident, .int, .string, .trueWord, .falseWord, .letWord, .returnWord, .ifWord, .fnWord,
    .leftBracket, .leftBrace, .plus, .minus, .star, .slash, .bang, .less, .greater, .equal,
    .notEqual]

/-- The tokens `kept` are what a tree keeps of the tokens `taken`. -/
structure Keeps (taken kept : List Token) : Prop where
  sublist : kept.Sublist taken
  all : kept.filter (·.kind ∈ keptKinds) = taken.filter (·.kind ∈ keptKinds)
  others : ∀ token ∈ kept, token.kind ∈ keptKinds ∨ token.kind = .leftParen

namespace Keeps

theorem nil : Keeps [] [] :=
  ⟨List.Sublist.refl _, rfl, nofun⟩

theorem keep {token : Token} (h : token.kind ∈ keptKinds ∨ token.kind = .leftParen) :
    Keeps [token] [token] :=
  ⟨List.Sublist.refl _, rfl, fun _ htoken => List.mem_singleton.mp htoken ▸ h⟩

theorem drop {token : Token} (h : token.kind ∉ keptKinds) : Keeps [token] [] :=
  ⟨List.nil_sublist _, by simp [h], nofun⟩

theorem append {taken₁ taken₂ kept₁ kept₂ : List Token} (h₁ : Keeps taken₁ kept₁)
    (h₂ : Keeps taken₂ kept₂) : Keeps (taken₁ ++ taken₂) (kept₁ ++ kept₂) := by
  refine ⟨h₁.sublist.append h₂.sublist, ?_, ?_⟩
  · rw [List.filter_append, List.filter_append, h₁.all, h₂.all]
  · intro token htoken
    exact (List.mem_append.mp htoken).elim (h₁.others token) (h₂.others token)

end Keeps

/-- Of the tokens between two cursors, a tree keeps these. -/
def KeepsBetween (s t : Cursor) (kept : List Token) : Prop :=
  ∃ taken, s.tokens = taken ++ t.tokens ∧ Keeps taken kept

namespace KeepsBetween

variable {s t u : Cursor} {kept kept₁ kept₂ : List Token}

theorem refl (s : Cursor) : KeepsBetween s s [] :=
  ⟨[], rfl, Keeps.nil⟩

theorem trans (h₁ : KeepsBetween s t kept₁) (h₂ : KeepsBetween t u kept₂) :
    KeepsBetween s u (kept₁ ++ kept₂) := by
  obtain ⟨taken₁, htokens₁, hkeeps₁⟩ := h₁
  obtain ⟨taken₂, htokens₂, hkeeps₂⟩ := h₂
  exact ⟨taken₁ ++ taken₂, by rw [htokens₁, htokens₂, List.append_assoc], hkeeps₁.append hkeeps₂⟩

theorem of_keep {kind : Token.Kind} {token : Token} (h : s.Takes kind token t)
    (hkind : kind ∈ keptKinds ∨ kind = .leftParen) : KeepsBetween s t [token] :=
  ⟨[token], h.tokens_eq, Keeps.keep (h.kind_eq ▸ hkind)⟩

theorem of_drop {kind : Token.Kind} {token : Token} (h : s.Takes kind token t)
    (hkind : kind ∉ keptKinds) : KeepsBetween s t [] :=
  ⟨[token], h.tokens_eq, Keeps.drop (h.kind_eq ▸ hkind)⟩

theorem skip (kind : Token.Kind) (hkind : kind ∉ keptKinds) (s : Cursor) :
    KeepsBetween s (s.skip kind) [] := by
  rcases s.skip_cases kind with hsame | ⟨token, htakes⟩
  · rw [hsame]
    exact refl s
  · exact of_drop htakes hkind

end KeepsBetween

theorem kind_of_binary {kind : Token.Kind} {op : BinaryOp}
    (h : Suffix.ofKind? kind = some (.binary op)) : kind ∈ keptKinds := by
  cases kind <;> first | decide | cases h

theorem not_kept_of_closer {kind : Token.Kind} (h : kind ∈ closers) : kind ∉ keptKinds := by
  have hclosers : ∀ kind ∈ closers, kind ∉ keptKinds := by decide
  exact hclosers kind h

open KeepsBetween in
/-- A phrase keeps the tokens it was read from, but for the ones that only delimit its parts. -/
theorem Reads.keepsBetween {s t : Cursor} {phrase : Phrase} (h : Reads s phrase t) :
    KeepsBetween s t phrase.kept := by
  induction h with
  | int h _ => exact .of_keep h (by decide)
  | name h => exact .of_keep h (by decide)
  | string h => exact .of_keep h (by decide)
  | trueWord h => exact .of_keep h (by decide)
  | falseWord h => exact .of_keep h (by decide)
  | @unary _ _ _ _ op _ h _ hoperand =>
    have hop : op.kind ∈ keptKinds := by cases op <;> decide
    exact (KeepsBetween.of_keep h (Or.inl hop)).trans hoperand
  | group hopening _ hclosing hinner =>
    have h := ((of_drop hopening (by decide)).trans hinner).trans (of_drop hclosing (by decide))
    simpa only [List.nil_append, List.append_nil] using h
  | array htoken _ helements =>
    have h := (of_keep htoken (by decide)).trans helements
    rwa [Phrase.kept, flatMap_kept_expr] at h
  | map htoken _ hentries =>
    have h := (of_keep htoken (by decide)).trans hentries
    rwa [Phrase.kept, flatMap_kept_entry] at h
  | branch htoken hopening _ hclosing _ hcondition hconsequence =>
    have h := ((of_keep htoken (by decide)).trans (of_drop hopening (by decide))).trans
      ((hcondition.trans (of_drop hclosing (by decide))).trans hconsequence)
    simpa only [Phrase.kept, Item.kept, Expr.kept, keptAlternative, List.append_nil,
      List.nil_append, List.singleton_append, List.cons_append] using h
  | branchElse htoken hopening _ hclosing _ hword _ hcondition hconsequence halternative =>
    have h := (((of_keep htoken (by decide)).trans (of_drop hopening (by decide))).trans
      ((hcondition.trans (of_drop hclosing (by decide))).trans hconsequence)).trans
        ((of_drop hword (by decide)).trans halternative)
    simpa only [Phrase.kept, Item.kept, Expr.kept, keptAlternative, List.append_nil,
      List.nil_append, List.singleton_append, List.cons_append] using h
  | function htoken hopening _ _ hparameters hbody =>
    have h := ((of_keep htoken (by decide)).trans (of_drop hopening (by decide))).trans
      (hparameters.trans hbody)
    simpa only [Phrase.kept, flatMap_kept_binder, Item.kept, Expr.kept, List.append_nil,
      List.nil_append, List.singleton_append, List.cons_append] using h
  | binary _ htoken hop _ hlhs hrhs =>
    exact hlhs.trans ((of_keep htoken (Or.inl (kind_of_binary hop))).trans hrhs)
  | call _ htoken _ hcallee harguments =>
    have h := hcallee.trans ((of_keep htoken (by decide)).trans harguments)
    rwa [Phrase.kept, Phrase.kept, flatMap_kept_expr] at h
  | index _ htoken _ hclosing hcollection hposition =>
    have h := hcollection.trans ((of_keep htoken (by decide)).trans
      (hposition.trans (of_drop hclosing (by decide))))
    simpa only [Phrase.kept, Item.kept, Expr.kept, List.append_nil, List.singleton_append] using h
  | entry _ hcolon _ hkey hvalue =>
    exact hkey.trans ((of_drop hcolon (by decide)).trans hvalue)
  | binder h => exact of_keep h (by decide)
  | noItems hclosing h => exact of_drop h (not_kept_of_closer hclosing)
  | lastItem hclosing _ h hfirst => exact hfirst.trans (of_drop h (not_kept_of_closer hclosing))
  | moreItems _ hcomma _ hfirst hrest =>
    exact hfirst.trans ((of_drop hcomma (by decide)).trans hrest)
  | bind htoken hname hsign _ hvalue =>
    have h := ((of_keep htoken (by decide)).trans (of_keep hname (by decide))).trans
      ((of_drop hsign (by decide)).trans hvalue)
    exact h
  | leave h _ => exact of_keep h (by decide)
  | leaveWith h _ hvalue => exact (of_keep h (by decide)).trans hvalue
  | exprStmt _ _ hvalue => exact hvalue
  | bodyClosed h => exact of_drop h (by decide)
  | bodyEnded _ => exact refl _
  | bodyMore _ _ hfirst hrest => exact hfirst.trans ((skip .semicolon (by decide) _).trans hrest)
  | block htoken _ hbody => exact (of_keep htoken (by decide)).trans hbody

theorem ReadsProgram.keepsBetween {s t : Cursor} {stmts : List (Stmt Token)}
    (h : ReadsProgram s stmts t) : KeepsBetween s t (keptStatements stmts) ∧ t.atEnd = true := by
  induction h with
  | done hend => exact ⟨.refl _, hend⟩
  | @more _ t _ _ _ hfirst _ ih =>
    have hskip := KeepsBetween.skip .semicolon (by decide) t
    exact ⟨hfirst.keepsBetween.trans (hskip.trans ih.1), ih.2⟩

theorem keeps_ofSource {source : String} (h : (Program.ofSource source).errors = []) :
    Keeps (Token.stream source) (keptStatements (Program.ofSource source).statements) := by
  obtain ⟨⟨taken, htokens, hkeeps⟩, hend⟩ := (reads_program (Cursor.ofSource source) h).keepsBetween
  have hstream : Token.stream source = taken ++ (Cursor.ofSource source).program.2.tokens := htokens
  have hrest : (Cursor.ofSource source).program.2.tokens.filter (·.kind ∈ keptKinds) = [] := by
    cases hcase : (Cursor.ofSource source).program.2.tokens with
    | nil => rfl
    | cons head tail =>
      have hhead : head.kind = .eof := by
        simpa [Cursor.atEnd, Cursor.kind?, Cursor.peek?, hcase] using hend
      rw [hcase] at hstream
      cases Token.eq_nil_of_stream_eq hstream hhead
      simp [hhead, keptKinds]
  refine ⟨?_, ?_, hkeeps.others⟩
  · rw [hstream]
    exact hkeeps.sublist.trans (List.sublist_append_left _ _)
  · rw [hstream, List.filter_append, hrest, List.append_nil]
    exact hkeeps.all

end Scriptlet.Grammar
