import Scriptlet.Proofs.ReadBack

/-! # Roots, spines and first words

Calls of calls have one root, which is no call itself, and a spine of arguments: their words are
those of the root and of the arguments one after the other. What is no call tells by its first word
what it is, but for the operations, which all begin with a parenthesis.
-/

namespace Scriptlet.Grammar

open Token (Word)

variable {α : Type}

/-! ### Roots of calls -/

/-- What is called in the end by calls of calls. -/
def Expr.root : Expr α → Expr α
  | .call _ callee _ => callee.root
  | expr => expr

/-- The arguments of calls of calls. -/
def Expr.spine : Expr α → List (List (Expr α))
  | .call _ callee arguments => callee.spine ++ [arguments]
  | _ => []

def Expr.isCall : Expr α → Bool
  | .call _ _ _ => true
  | _ => false

theorem Expr.isCall_root (expr : Expr α) : expr.root.isCall = false := by
  fun_induction Expr.root expr with
  | case1 _ _ _ ih => exact ih
  | case2 expr h =>
    cases expr with
    | call label callee arguments => exact absurd rfl (h label callee arguments)
    | _ => rfl

theorem spellAll_eq_map (values : List (Expr α)) : spellAll values = values.map Expr.spelling := by
  induction values with
  | nil => rfl
  | cons first rest ih => rw [spellAll, ih, List.map_cons]

theorem spellEntries_eq_map (entries : List (Expr α × Expr α)) :
    spellEntries entries
      = entries.map fun entry =>
          entry.1.spelling ++ Token.Kind.colon.word :: entry.2.spelling := by
  induction entries with
  | nil => rfl
  | cons first rest ih => rw [spellEntries, ih, List.map_cons]

theorem spellStatements_eq_map (stmts : List (Stmt α)) :
    spellStatements stmts = stmts.map Stmt.spelling := by
  induction stmts with
  | nil => rfl
  | cons first rest ih => rw [spellStatements, ih, List.map_cons]

/-- The words of the arguments of one call after the other. -/
def spellSpine (spine : List (List (Expr α))) : List Word :=
  spine.flatMap fun arguments => Token.Kind.leftParen.word
    :: (Token.Kind.comma.separated (arguments.map Expr.spelling) ++ [Token.Kind.rightParen.word])

theorem Expr.spelling_eq_append (expr : Expr α) :
    expr.spelling = expr.root.spelling ++ spellSpine expr.spine := by
  fun_induction Expr.root expr with
  | case1 _ callee arguments ih =>
    rw [Expr.spelling, ih, Expr.spine, spellSpine, spellSpine, List.flatMap_append,
      List.append_assoc, List.flatMap_singleton, spellAll_eq_map]
  | case2 expr h =>
    rw [show expr.spine = [] by unfold Expr.spine; split <;> simp_all]
    exact (List.append_nil _).symm

theorem Expr.bare_eq_foldl (expr : Expr α) :
    expr.bare = (expr.spine.map (List.map Expr.bare)).foldl (Expr.call ()) expr.root.bare := by
  fun_induction Expr.root expr with
  | case1 _ callee arguments ih =>
    rw [Expr.spine, List.map_append, List.foldl_append, ← ih]
    exact congrArg (Expr.call () callee.bare) (relabelAll_eq_map _ arguments)
  | case2 expr h =>
    rw [show expr.spine = [] by unfold Expr.spine; split <;> simp_all]
    rfl

theorem Expr.mem_nodes_of_root (expr : Expr α) {node : Node α} (h : node ∈ expr.root.nodes) :
    node ∈ expr.nodes := by
  fun_induction Expr.root expr with
  | case1 _ _ _ ih => exact List.mem_cons_of_mem _ (List.mem_append_left _ (ih h))
  | case2 => exact h

theorem Expr.mem_nodes_of_spine (expr : Expr α) {arguments : List (Expr α)}
    (harguments : arguments ∈ expr.spine) {argument : Expr α} (hargument : argument ∈ arguments)
    {node : Node α} (h : node ∈ argument.nodes) : node ∈ expr.nodes := by
  fun_induction Expr.spine expr with
  | case1 _ callee last ih =>
    rcases List.mem_append.mp harguments with hmem | hmem
    · exact List.mem_cons_of_mem _ (List.mem_append_left _ (ih hmem))
    · obtain rfl := List.mem_singleton.mp hmem
      exact List.mem_cons_of_mem _ (List.mem_append_right _ (mem_nodesOfAll hargument h))
  | case2 => cases harguments

/-! ### First words -/

/-- The kinds that canonical text of expressions begins with. No sign is among them: an operation is
written between parentheses. -/
def leaders : List Token.Kind :=
  [.int, .ident, .string, .trueWord, .falseWord, .leftParen, .ifWord, .fnWord, .leftBracket,
    .leftBrace]

theorem Expr.spelling_eq_leader : ∀ expr : Expr α, ∃ first ws,
    expr.spelling = first :: ws ∧ first.1 ∈ leaders
  | .int _ _ | .name _ _ | .string _ _ => ⟨_, _, rfl, by simp [leaders]⟩
  | .bool _ value => ⟨_, _, rfl, by cases value <;> decide⟩
  | .array _ _ | .map _ _ | .unary _ _ _ | .binary _ _ _ _ | .branch _ _ _ _ | .function _ _ _
  | .index _ _ _ => ⟨_, _, rfl, by decide⟩
  | .call _ callee _ => by
    obtain ⟨first, ws, hcallee, hfirst⟩ := callee.spelling_eq_leader
    exact ⟨first, _, by rw [Expr.spelling, hcallee, List.cons_append], hfirst⟩

/-- The kind of word that an expression begins with, if it is no call. The truth values count as one
kind. -/
def Expr.opening? : Expr α → Option Token.Kind
  | .int _ _ => some .int
  | .bool _ _ => some .trueWord
  | .name _ _ => some .ident
  | .string _ _ => some .string
  | .array _ _ => some .leftBracket
  | .map _ _ => some .leftBrace
  | .unary _ _ _ | .binary _ _ _ _ | .index _ _ _ => some .leftParen
  | .branch _ _ _ _ => some .ifWord
  | .function _ _ _ => some .fnWord
  | .call _ _ _ => none

/-- The kind that a first word counts as. -/
def openingOf : Token.Kind → Token.Kind
  | .falseWord => .trueWord
  | kind => kind

theorem Expr.exists_opening {expr : Expr α} (h : expr.isCall = false) :
    ∃ kind, expr.opening? = some kind := by
  cases expr with
  | call _ _ _ => cases h
  | _ => exact ⟨_, rfl⟩

theorem Expr.root_of_opening? {expr : Expr α} {kind : Token.Kind} (h : expr.opening? = some kind) :
    expr.root = expr ∧ expr.spine = [] := by
  cases expr with
  | call _ _ _ => cases h
  | _ => exact ⟨rfl, rfl⟩

theorem Expr.spelling_of_opening? {expr : Expr α} {kind : Token.Kind}
    (h : expr.opening? = some kind) :
    ∃ first ws, expr.spelling = first :: ws ∧ openingOf first.1 = kind := by
  cases expr with
  | call _ _ _ => cases h
  | bool _ value =>
    cases h
    exact ⟨_, _, rfl, by cases value <;> rfl⟩
  | _ =>
    cases h
    exact ⟨_, _, rfl, rfl⟩

end Scriptlet.Grammar
