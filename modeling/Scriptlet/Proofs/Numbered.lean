import Scriptlet.Proofs.Labels

/-! # The integers of trees

An integer token that a tree is labelled by is the label of an integer, whatever else it is the
label of: an expression that stands as a statement has its first token for a label too.
-/

namespace Scriptlet.Grammar

/-- The token is among those that statements keep, or the label of an expression that stands as a
statement among them. -/
def Stored (stmts : List (Stmt Token)) (token : Token) : Prop :=
  token ∈ keptStatements stmts ∨ ∃ value, .stmt (.expr token value) ∈ nodesOfStatements stmts

/-- Every integer token that is kept, or that labels an expression that stands as a statement, is
the label of an integer. -/
def Numbered (kept : List Token) (nodes : List (Node Token)) : Prop :=
  ∀ token, token.kind = .int → (token ∈ kept ∨ ∃ value, .stmt (.expr token value) ∈ nodes) →
    ∃ value, .expr (.int token value) ∈ nodes

namespace Numbered

variable {kept more : List Token} {nodes others : List (Node Token)} {token : Token}

theorem nil : Numbered [] [] := by
  rintro token - (h | ⟨_, h⟩) <;> cases h

theorem append (h : Numbered kept nodes) (h' : Numbered more others) :
    Numbered (kept ++ more) (nodes ++ others) := by
  intro token hkind hstored
  have hside : (token ∈ kept ∨ ∃ value, .stmt (.expr token value) ∈ nodes) ∨
      (token ∈ more ∨ ∃ value, .stmt (.expr token value) ∈ others) := by
    rcases hstored with hkept | ⟨value, hnode⟩
    · exact (List.mem_append.mp hkept).imp Or.inl Or.inl
    · exact (List.mem_append.mp hnode).imp (fun h => Or.inr ⟨value, h⟩) fun h => Or.inr ⟨value, h⟩
  rcases hside with hstored | hstored
  · obtain ⟨value, hnode⟩ := h token hkind hstored
    exact ⟨value, List.mem_append_left _ hnode⟩
  · obtain ⟨value, hnode⟩ := h' token hkind hstored
    exact ⟨value, List.mem_append_right _ hnode⟩

theorem insert (hkind : token.kind ≠ .int) (h : Numbered (kept ++ more) nodes) :
    Numbered (kept ++ token :: more) nodes := by
  intro other hother hstored
  refine h other hother (hstored.imp_left fun hmem => ?_)
  rcases List.mem_append.mp hmem with hmem | hmem
  · exact List.mem_append_left _ hmem
  · rcases List.mem_cons.mp hmem with rfl | hmem
    · exact absurd hother hkind
    · exact List.mem_append_right _ hmem

theorem label (hkind : token.kind ≠ .int) (h : Numbered kept nodes) :
    Numbered (token :: kept) nodes :=
  @insert [] kept nodes token hkind h

/-- A node that is not an expression that stands as a statement makes no difference. -/
theorem node {node : Node Token} (hnode : ∀ token value, node ≠ .stmt (.expr token value))
    (h : Numbered kept nodes) : Numbered kept (node :: nodes) := by
  intro token hkind hstored
  have hbefore : token ∈ kept ∨ ∃ value, .stmt (.expr token value) ∈ nodes := by
    refine hstored.imp_right fun ⟨value, hmem⟩ => ⟨value, ?_⟩
    exact (List.mem_cons.mp hmem).resolve_left fun heq => hnode token value heq.symm
  obtain ⟨value, hmem⟩ := h token hkind hbefore
  exact ⟨value, List.mem_cons_of_mem _ hmem⟩

theorem expr (value : Expr Token) (h : Numbered kept nodes) :
    Numbered kept (.expr value :: nodes) :=
  h.node fun _ _ => nofun

theorem binder (ident : Ident Token) (h : Numbered kept nodes) :
    Numbered kept (.binder ident :: nodes) :=
  h.node fun _ _ => nofun

theorem bind (token : Token) (target : Ident Token) (value : Expr Token)
    (h : Numbered kept nodes) : Numbered kept (.stmt (.bind token target value) :: nodes) :=
  h.node fun _ _ => nofun

theorem leave (token : Token) (value : Option (Expr Token)) (h : Numbered kept nodes) :
    Numbered kept (.stmt (.leave token value) :: nodes) :=
  h.node fun _ _ => nofun

theorem int (token : Token) (value : Int64) : Numbered [token] [.expr (.int token value)] := by
  rintro other - (hmem | ⟨_, hmem⟩)
  · cases List.mem_singleton.mp hmem
    exact ⟨value, List.mem_singleton_self _⟩
  · cases List.mem_singleton.mp hmem

theorem leaf (value : Expr Token) (hkind : token.kind ≠ .int) :
    Numbered [token] [.expr value] :=
  (nil.expr value).label hkind

theorem statement {value : Expr Token} (hfirst : token.kind = .int → token ∈ kept)
    (h : Numbered kept nodes) : Numbered kept (.stmt (.expr token value) :: nodes) := by
  intro other hkind hstored
  have hbefore : other ∈ kept ∨ ∃ value, .stmt (.expr other value) ∈ nodes := by
    rcases hstored with hmem | ⟨others, hmem⟩
    · exact Or.inl hmem
    · rcases List.mem_cons.mp hmem with heq | hmem
      · cases heq
        exact Or.inl (hfirst hkind)
      · exact Or.inr ⟨others, hmem⟩
  obtain ⟨number, hmem⟩ := h other hkind hbefore
  exact ⟨number, List.mem_cons_of_mem _ hmem⟩

end Numbered

theorem Cursor.Takes.kind_ne {kind other : Token.Kind} {s t : Cursor} {token : Token}
    (h : s.Takes kind token t) (hne : kind ≠ other) : token.kind ≠ other :=
  h.kind_eq ▸ hne

/-- What a phrase starts with is kept, if it is of a kind that is kept. -/
theorem KeepsBetween.mem_of_peek? {s t : Cursor} {kept : List Token} {token : Token}
    (h : KeepsBetween s t kept) (hkept : kept ≠ []) (hpeek : s.peek? = some token)
    (hkind : token.kind ∈ keptKinds) : token ∈ kept := by
  obtain ⟨taken, htokens, hkeeps⟩ := h
  cases taken with
  | nil => exact absurd (List.sublist_nil.mp hkeeps.sublist) hkept
  | cons first taken =>
    rw [Cursor.peek?, htokens] at hpeek
    cases hpeek
    have hmem : token ∈ (token :: taken).filter (·.kind ∈ keptKinds) :=
      List.mem_filter.mpr ⟨List.mem_cons_self, decide_eq_true hkind⟩
    rw [← hkeeps.all] at hmem
    exact (List.mem_filter.mp hmem).1

theorem Expr.label_mem_kept (expr : Expr Token) : expr.label ∈ expr.kept := by
  cases expr <;> simp [Expr.kept, Expr.label]

open Numbered in
/-- In a phrase that is read, every integer token is the label of an integer. -/
theorem Reads.numbered {s t : Cursor} {phrase : Phrase} (h : Reads s phrase t) :
    Numbered phrase.kept phrase.nodes := by
  induction h with
  | int _ _ => exact Numbered.int _ _
  | name h | string h | trueWord h | falseWord h => exact leaf _ (h.kind_ne (by decide))
  | @unary _ _ _ _ op _ h _ hoperand =>
    have hop : op.kind ≠ .int := by cases op <;> decide
    exact (hoperand.expr _).label (h.kind_ne hop)
  | group _ _ _ hinner => exact hinner
  | array htoken _ helements =>
    rw [Phrase.kept, flatMap_kept_expr, Phrase.nodes, flatMap_nodes_expr] at helements
    exact (helements.expr _).label (htoken.kind_ne (by decide))
  | map htoken _ hentries =>
    rw [Phrase.kept, flatMap_kept_entry, Phrase.nodes, flatMap_nodes_entry] at hentries
    exact (hentries.expr _).label (htoken.kind_ne (by decide))
  | branch htoken _ _ _ _ hcondition hconsequence =>
    have hparts := (hcondition.append hconsequence).append nil
    exact (hparts.expr _).label (htoken.kind_ne (by decide))
  | branchElse htoken _ _ _ _ _ _ hcondition hconsequence halternative =>
    have hparts := (hcondition.append hconsequence).append halternative
    exact (hparts.expr _).label (htoken.kind_ne (by decide))
  | function htoken _ _ _ hparameters hbody =>
    rw [Phrase.kept, flatMap_kept_binder, Phrase.nodes, flatMap_nodes_binder] at hparameters
    exact ((hparameters.append hbody).expr _).label (htoken.kind_ne (by decide))
  | binary _ htoken hop _ hlhs hrhs =>
    refine ((hlhs.append hrhs).expr _).insert (htoken.kind_ne ?_)
    rintro rfl
    cases hop
  | call _ htoken _ hcallee harguments =>
    rw [Phrase.kept, flatMap_kept_expr, Phrase.nodes, flatMap_nodes_expr] at harguments
    exact ((hcallee.append harguments).expr _).insert (htoken.kind_ne (by decide))
  | index _ htoken _ _ hcollection hposition =>
    exact ((hcollection.append hposition).expr _).insert (htoken.kind_ne (by decide))
  | entry _ _ _ hkey hvalue => exact hkey.append hvalue
  | binder h => exact (nil.binder _).label (h.kind_ne (by decide))
  | noItems _ _ => exact nil
  | lastItem _ _ _ hfirst => exact hfirst.append nil
  | moreItems _ _ _ hfirst hrest => exact hfirst.append hrest
  | bind htoken hname _ _ hvalue =>
    refine Numbered.label (htoken.kind_ne (by decide)) (Numbered.bind _ _ _ ?_)
    exact (hvalue.binder _).label (hname.kind_ne (by decide))
  | leave h _ => exact (nil.leave _ _).label (h.kind_ne (by decide))
  | leaveWith h _ hvalue => exact (hvalue.leave _ _).label (h.kind_ne (by decide))
  | @exprStmt _ _ _ value hpeek hreads hvalue =>
    -- The first token of the expression is kept, since all integers are.
    refine hvalue.statement fun hkind => ?_
    have hkept : value.kept ≠ [] := List.ne_nil_of_mem value.label_mem_kept
    exact hreads.keepsBetween.mem_of_peek? hkept hpeek (hkind ▸ by decide)
  | bodyClosed _ | bodyEnded _ => exact nil
  | bodyMore _ _ hfirst hrest => exact hfirst.append hrest
  | block h _ hbody => exact hbody.label (h.kind_ne (by decide))

end Scriptlet.Grammar
