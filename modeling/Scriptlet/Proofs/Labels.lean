import Scriptlet.Proofs.Kept
import Scriptlet.Proofs.Nodes
import Scriptlet.Proofs.Words

/-! # The labels of trees

A tree that was read from a source is labelled by tokens of the source throughout, and each label
tells what it labels. So names are read as names again, strings have no quotes, and integers are not
negative. Together with the order in which labels are kept, this is all that is known of a source
from its tree.
-/

namespace Scriptlet.Grammar

variable {α : Type}

open Token (Word)

/-- The node can be written so that it is read as the same node. -/
def Node.Legible : Node α → Prop
  | .expr (.int _ value) => 0 ≤ value.toInt
  | .expr (.name _ name) => Word.Proper (.ident, name)
  | .expr (.string _ text) => Word.Proper (.string, text)
  | .expr _ => True
  | .stmt (.block _) => False
  | .stmt _ => True
  | .binder ident => Word.Proper (.ident, ident.name)

/-- All tokens in front of the cursor are such as a source has. -/
def Cursor.Proper (s : Cursor) : Prop :=
  ∀ token ∈ s.tokens, token.kind = .eof ∨ token.word.Proper

theorem Cursor.proper_ofSource (source : String) : (Cursor.ofSource source).Proper :=
  fun _ htoken => Token.proper_of_mem_stream htoken

/-- What the label of an expression tells of it. -/
def Expr.SignedBy (token : Token) : Expr Token → Prop
  | .int _ value => token.kind = .int ∧ integer? token.literal = some value
  | .bool _ value => token.kind = if value then .trueWord else .falseWord
  | .name _ text => token.kind = .ident ∧ token.literal = text
  | .string _ text => token.kind = .string ∧ token.literal = text
  | .array _ _ | .index _ _ _ => token.kind = .leftBracket
  | .map _ _ => token.kind = .leftBrace
  | .unary _ op _ => token.kind = op.kind
  | .binary _ op _ _ => Suffix.ofKind? token.kind = some (.binary op)
  | .branch _ _ _ _ => token.kind = .ifWord
  | .function _ _ _ => token.kind = .fnWord
  | .call _ _ _ => token.kind = .leftParen

/-- The node is labelled by a token that has the property and tells what node it is. -/
def Node.Signed (P : Token → Prop) : Node Token → Prop
  | .expr value => P value.label ∧ value.SignedBy value.label
  | .stmt (.block _) => False
  | .stmt part => P part.label
  | .binder ident => P ident.label ∧ ident.label.kind = .ident ∧ ident.label.literal = ident.name

/-- The tokens in front of the cursor all have the property. -/
def Cursor.All (P : Token → Prop) (s : Cursor) : Prop :=
  ∀ token ∈ s.tokens, P token

section All

variable {P : Token → Prop} {s t : Cursor} (hall : s.All P)

include hall

theorem KeepsBetween.all {kept : List Token} (h : KeepsBetween s t kept) : t.All P := by
  obtain ⟨taken, htokens, -⟩ := h
  intro token htoken
  exact hall token (htokens ▸ List.mem_append_right _ htoken)

theorem Cursor.Takes.all {kind : Token.Kind} {token : Token} (h : s.Takes kind token t) :
    t.All P := by
  intro other hother
  exact hall other (h.tokens_eq ▸ List.mem_cons_of_mem _ hother)

theorem Cursor.Takes.holds {kind : Token.Kind} {token : Token} (h : s.Takes kind token t) :
    P token :=
  hall token (h.tokens_eq ▸ List.mem_cons_self)

end All

open List (forall_mem_append forall_mem_cons forall_mem_singleton) in
/-- A phrase that is read from tokens is labelled by them throughout. -/
theorem Reads.signed {P : Token → Prop} {s t : Cursor} {phrase : Phrase} (h : Reads s phrase t)
    (hall : s.All P) : ∀ node ∈ phrase.nodes, node.Signed P := by
  induction h with
  | int h hvalue => exact forall_mem_singleton.mpr ⟨h.holds hall, h.kind_eq, hvalue⟩
  | name h | string h => exact forall_mem_singleton.mpr ⟨h.holds hall, h.kind_eq, rfl⟩
  | trueWord h | falseWord h => exact forall_mem_singleton.mpr ⟨h.holds hall, h.kind_eq⟩
  | unary h _ hoperand =>
    exact forall_mem_cons.mpr ⟨⟨h.holds hall, h.kind_eq⟩, hoperand (h.all hall)⟩
  | group hopening _ _ hinner => exact hinner (hopening.all hall)
  | array htoken _ helements =>
    have h := helements (htoken.all hall)
    rw [Phrase.nodes, flatMap_nodes_expr] at h
    exact forall_mem_cons.mpr ⟨⟨htoken.holds hall, htoken.kind_eq⟩, h⟩
  | map htoken _ hentries =>
    have h := hentries (htoken.all hall)
    rw [Phrase.nodes, flatMap_nodes_entry] at h
    exact forall_mem_cons.mpr ⟨⟨htoken.holds hall, htoken.kind_eq⟩, h⟩
  | branch htoken hopening hreads hclosing _ hcondition hconsequence =>
    have hinside := hopening.all (htoken.all hall)
    have hbehind := hclosing.all (hreads.keepsBetween.all hinside)
    exact forall_mem_cons.mpr ⟨⟨htoken.holds hall, htoken.kind_eq⟩, forall_mem_append.mpr
      ⟨forall_mem_append.mpr ⟨hcondition hinside, hconsequence hbehind⟩, nofun⟩⟩
  | branchElse htoken hopening hreads hclosing hblock hword _ hcondition hconsequence
      halternative =>
    have hinside := hopening.all (htoken.all hall)
    have hbehind := hclosing.all (hreads.keepsBetween.all hinside)
    have helse := hword.all (hblock.keepsBetween.all hbehind)
    exact forall_mem_cons.mpr ⟨⟨htoken.holds hall, htoken.kind_eq⟩, forall_mem_append.mpr
      ⟨forall_mem_append.mpr ⟨hcondition hinside, hconsequence hbehind⟩, halternative helse⟩⟩
  | function htoken hopening hreads _ hparameters hbody =>
    have hinside := hopening.all (htoken.all hall)
    have h := hparameters hinside
    rw [Phrase.nodes, flatMap_nodes_binder] at h
    exact forall_mem_cons.mpr ⟨⟨htoken.holds hall, htoken.kind_eq⟩, forall_mem_append.mpr
      ⟨h, hbody (hreads.keepsBetween.all hinside)⟩⟩
  | binary hreads htoken hop _ hlhs hrhs =>
    have hright := hreads.keepsBetween.all hall
    rw [← htoken.kind_eq] at hop
    exact forall_mem_cons.mpr ⟨⟨htoken.holds hright, hop⟩,
      forall_mem_append.mpr ⟨hlhs hall, hrhs (htoken.all hright)⟩⟩
  | call hreads htoken _ hcallee harguments =>
    have hright := hreads.keepsBetween.all hall
    have h := harguments (htoken.all hright)
    rw [Phrase.nodes, flatMap_nodes_expr] at h
    exact forall_mem_cons.mpr ⟨⟨htoken.holds hright, htoken.kind_eq⟩,
      forall_mem_append.mpr ⟨hcallee hall, h⟩⟩
  | index hreads htoken _ _ hcollection hposition =>
    have hright := hreads.keepsBetween.all hall
    exact forall_mem_cons.mpr ⟨⟨htoken.holds hright, htoken.kind_eq⟩,
      forall_mem_append.mpr ⟨hcollection hall, hposition (htoken.all hright)⟩⟩
  | entry hreads hcolon _ hkey hvalue =>
    have hbehind := hcolon.all (hreads.keepsBetween.all hall)
    exact forall_mem_append.mpr ⟨hkey hall, hvalue hbehind⟩
  | binder h => exact forall_mem_singleton.mpr ⟨h.holds hall, h.kind_eq, rfl⟩
  | noItems _ _ => exact nofun
  | lastItem _ _ _ hfirst => exact forall_mem_append.mpr ⟨hfirst hall, nofun⟩
  | moreItems hreads hcomma _ hfirst hrest =>
    have hbehind := hcomma.all (hreads.keepsBetween.all hall)
    exact forall_mem_append.mpr ⟨hfirst hall, hrest hbehind⟩
  | bind htoken hname hsign _ hvalue =>
    have hbehind := htoken.all hall
    exact forall_mem_cons.mpr ⟨htoken.holds hall, forall_mem_cons.mpr
      ⟨⟨hname.holds hbehind, hname.kind_eq, rfl⟩, hvalue (hsign.all (hname.all hbehind))⟩⟩
  | leave h _ => exact forall_mem_singleton.mpr (h.holds hall)
  | leaveWith h _ hvalue => exact forall_mem_cons.mpr ⟨h.holds hall, hvalue (h.all hall)⟩
  | exprStmt hpeek _ hvalue =>
    exact forall_mem_cons.mpr ⟨hall _ (List.mem_of_head? hpeek), hvalue hall⟩
  | bodyClosed _ | bodyEnded _ => exact nofun
  | bodyMore hreads _ hfirst hrest =>
    have hbehind := hreads.keepsBetween.all hall
    have hskip := (KeepsBetween.skip .semicolon (by decide) _).all hbehind
    exact forall_mem_append.mpr ⟨hfirst hall, hrest hskip⟩
  | block h _ hbody => exact hbody (h.all hall)

theorem toInt_of_integer? {digits : String} {value : Int64} (h : integer? digits = some value) :
    0 ≤ value.toInt := by
  simp only [integer?] at h
  split at h
  · next hle =>
    cases h
    rw [Int64.toInt_ofNat_of_lt (Nat.lt_succ_of_le hle)]
    exact Int.natCast_nonneg _
  · cases h

/-- A label that is such as a source has makes for a legible node. -/
theorem Node.Signed.legible {node : Node Token}
    (h : node.Signed fun token => token.kind = .eof ∨ token.word.Proper) : node.Legible := by
  have hword {token : Token} {kind : Token.Kind} (hkind : token.kind = kind) (hne : kind ≠ .eof)
      (hproper : token.kind = .eof ∨ token.word.Proper) : Word.Proper (kind, token.literal) := by
    subst hkind
    exact hproper.resolve_left hne
  match node, h with
  | .expr (.int _ _), ⟨_, _, hvalue⟩ => exact toInt_of_integer? hvalue
  | .expr (.name _ _), ⟨hproper, hkind, hname⟩ => exact hname ▸ hword hkind (by decide) hproper
  | .expr (.string _ _), ⟨hproper, hkind, htext⟩ => exact htext ▸ hword hkind (by decide) hproper
  | .expr (.bool _ _), _ | .expr (.array _ _), _ | .expr (.map _ _), _ | .expr (.unary _ _ _), _
  | .expr (.binary _ _ _ _), _ | .expr (.branch _ _ _ _), _ | .expr (.function _ _ _), _
  | .expr (.call _ _ _), _ | .expr (.index _ _ _), _ => exact trivial
  | .stmt (.bind _ _ _), _ | .stmt (.leave _ _), _ | .stmt (.expr _ _), _ => exact trivial
  | .binder _, ⟨hproper, hkind, hname⟩ =>
    rw [Node.Legible, ← hname]
    exact hword hkind (by decide) hproper

/-- A phrase that is read from tokens of a source is legible throughout. -/
theorem Reads.legible {s t : Cursor} {phrase : Phrase} (h : Reads s phrase t) (hproper : s.Proper) :
    ∀ node ∈ phrase.nodes, node.Legible :=
  fun node hnode => (h.signed hproper node hnode).legible

/-! ### Programs -/

theorem ReadsProgram.signed {P : Token → Prop} {s t : Cursor} {stmts : List (Stmt Token)}
    (h : ReadsProgram s stmts t) (hall : s.All P) :
    ∀ node ∈ nodesOfStatements stmts, node.Signed P := by
  induction h with
  | done _ => exact nofun
  | more hfirst _ ih =>
    have hbehind := hfirst.keepsBetween.all hall
    have hskip := (KeepsBetween.skip .semicolon (by decide) _).all hbehind
    exact List.forall_mem_append.mpr ⟨hfirst.signed hall, ih hskip⟩

theorem Program.signed_ofSource {source : String} (h : (ofSource source).errors = []) :
    ∀ node ∈ nodesOfStatements (ofSource source).statements,
      node.Signed (· ∈ Token.stream source) :=
  (reads_program (Cursor.ofSource source) h).signed fun _ htoken => htoken

theorem Program.legible_ofSource {source : String} (h : (ofSource source).errors = []) :
    ∀ node ∈ nodesOfStatements (ofSource source).statements, node.Legible :=
  fun node hnode => ((reads_program (Cursor.ofSource source) h).signed
    (Cursor.proper_ofSource source) node hnode).legible

/-- The tokens that a tree without errors keeps are tokens of its source in the order of the source.
Every word, literal, operator and opening bracket or brace is among them once, and besides these
there are only opening parentheses. Each label tells what it labels: the literal of a binder's label
is the name that is bound. -/
theorem kept_ofSource (source : String) (hsize : Text.byteLength source.toList < 2 ^ 32)
    (herrors : (Program.ofSource source).errors = []) :
    (keptStatements (Program.ofSource source).statements).Sublist (Token.stream source) ∧
      (keptStatements (Program.ofSource source).statements).Pairwise
        (fun first second => first.span.Before second.span) ∧
      (∀ token ∈ Token.stream source, token.kind ∈ keptKinds →
        (keptStatements (Program.ofSource source).statements).count token = 1) ∧
      (∀ token ∈ keptStatements (Program.ofSource source).statements,
        token.kind ∈ keptKinds ∨ token.kind = .leftParen) ∧
      ∀ node ∈ nodesOfStatements (Program.ofSource source).statements,
        node.Signed (· ∈ Token.stream source) := by
  have hkeeps := keeps_ofSource herrors
  have hascending : (Token.stream source).Pairwise fun first second =>
      first.span.Before second.span :=
    (Token.streamFrom_ascending source.toList 0 (by omega)).2
  refine ⟨hkeeps.sublist, hascending.sublist hkeeps.sublist, ?_, hkeeps.others,
    Program.signed_ofSource herrors⟩
  intro token htoken hkind
  have hnodup : (Token.stream source).Nodup := by
    refine List.Pairwise.imp ?_ hascending
    intro first second hbefore heq
    rw [heq] at hbefore
    exact Nat.lt_irrefl _ hbefore.1
  have hcount := congrArg (List.count token) hkeeps.all
  rw [List.count_filter (by simpa using hkind), List.count_filter (by simpa using hkind)] at hcount
  rw [hcount, hnodup.count, if_pos htoken]

/-- Groups, calls, an index expression and both kinds of block in one program. -/
theorem kept_ofSource_nested :
    let source := "let f = fn(a, b) \x7b if (!(a < b)) \x7b return [1, -2][0]; \x7d "
      ++ "else \x7b \x7b\"k\": (a + 3) * f(a)\x7d \x7d \x7d; (f)(true, \"s\")"
    Text.byteLength source.toList < 2 ^ 32 ∧ (Program.ofSource source).errors = [] ∧
      (keptStatements (Program.ofSource source).statements).Sublist (Token.stream source) ∧
      (keptStatements (Program.ofSource source).statements).Pairwise
        (fun first second => first.span.Before second.span) ∧
      (∀ token ∈ Token.stream source, token.kind ∈ keptKinds →
        (keptStatements (Program.ofSource source).statements).count token = 1) ∧
      (∀ token ∈ keptStatements (Program.ofSource source).statements,
        token.kind ∈ keptKinds ∨ token.kind = .leftParen) ∧
      ∀ node ∈ nodesOfStatements (Program.ofSource source).statements,
        node.Signed (· ∈ Token.stream source) := by
  intro source
  have hsize : Text.byteLength source.toList < 2 ^ 32 := by decide +kernel
  have herrors : (Program.ofSource source).errors = [] := by decide +kernel
  exact ⟨hsize, herrors, kept_ofSource source hsize herrors⟩

end Scriptlet.Grammar
