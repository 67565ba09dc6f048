import Scriptlet.Proofs.Determines
import Scriptlet.Proofs.Spine

/-! # Constructs that tell their parts

The spelling of a construct tells which construct it is and tells its parts, if the spellings of the
parts do so. There is one lemma for each construct.
-/

namespace Scriptlet.Grammar

open Token (Word)
open List (forall_mem_append forall_mem_cons)

variable {α : Type}

abbrev Expr.Legible (expr : Expr α) : Prop :=
  ∀ node ∈ expr.nodes, node.Legible

abbrev Block.Legible (block : Block α) : Prop :=
  ∀ node ∈ block.nodes, node.Legible

abbrev Stmt.Legible (stmt : Stmt α) : Prop :=
  ∀ node ∈ stmt.nodes, node.Legible

/-- The kinds that an expression goes on with in front of which another one ends. -/
def continuers : List Token.Kind :=
  [.leftParen, .elseWord]

/-- The kinds that a statement goes on with in front of which another one ends. -/
def stmtContinuers : List Token.Kind :=
  .elseWord :: starters

theorem mem_stmtContinuers : ∀ kind ∈ continuers, kind ∈ stmtContinuers := by
  decide

/-- The spelling of the expression belongs to no other expression. -/
def Expr.Unambiguous (expr : Expr α) : Prop :=
  ∀ other : Expr α, other.Legible →
    Determines continuers expr.spelling other.spelling (expr.bare = other.bare)

def Block.Unambiguous (block : Block α) : Prop :=
  ∀ (other : Block α) (kinds : List Token.Kind), other.Legible →
    Determines kinds block.spelling other.spelling
      (block.relabel (fun _ => ()) = other.relabel fun _ => ())

def Stmt.Unambiguous (stmt : Stmt α) : Prop :=
  ∀ other : Stmt α, other.Legible →
    Determines stmtContinuers stmt.spelling other.spelling
      (stmt.relabel (fun _ => ()) = other.relabel fun _ => ())

/-- The root is told apart from all other roots, and so are the arguments. -/
structure Expr.Rooted (expr : Expr α) : Prop where
  root : ∀ other : Expr α, other.isCall = false → other.Legible →
    Determines [.elseWord] expr.root.spelling other.spelling (expr.root.bare = other.bare)
  spine : ∀ arguments ∈ expr.spine, ∀ argument ∈ arguments, argument.Unambiguous

theorem leadsItem_spelling (expr : Expr α) {closing : Token.Kind} (h : closing ∈ closers) :
    LeadsItem closing expr.spelling := by
  simpa using (leadsExpr_spelling expr).leadsItem h []

theorem determines_all {values others : List (Expr α)} (h : ∀ value ∈ values, value.Unambiguous)
    (hothers : ∀ other ∈ others, other.Legible) (closing kinds)
    (hclosing : closing ∈ [Token.Kind.rightParen, .rightBracket]) :
    Determines kinds (Token.Kind.comma.separated (values.map Expr.spelling) ++ [closing.word])
      (Token.Kind.comma.separated (others.map Expr.spelling) ++ [closing.word])
      (values.map Expr.bare = others.map Expr.bare) := by
  have hkinds : ∀ closing ∈ [Token.Kind.rightParen, .rightBracket],
      closing ≠ .comma ∧ closing ∉ continuers ∧ closing ∈ closers := by decide
  obtain ⟨hcomma, hcontinues, hcloses⟩ := hkinds closing hclosing
  exact .separated hcomma ⟨by decide, hcontinues⟩
    (fun value hvalue other hother => h value hvalue other (hothers other hother))
    (fun value _ => leadsItem_spelling value hcloses)
    fun other _ => leadsItem_spelling other hcloses

theorem determines_spine : ∀ {spine spine' : List (List (Expr α))},
    (∀ arguments ∈ spine, ∀ argument ∈ arguments, argument.Unambiguous) →
    (∀ arguments ∈ spine', ∀ argument ∈ arguments, argument.Legible) →
    Determines continuers (spellSpine spine) (spellSpine spine')
      (spine.map (List.map Expr.bare) = spine'.map (List.map Expr.bare))
  | [], [], _, _ => (Determines.same _).imp fun _ => rfl
  | [], _ :: _, _, _ => .of_mem List.mem_cons_self
  | _ :: _, [], _, _ => .symm (.of_mem List.mem_cons_self)
  | arguments :: spine, arguments' :: spine', h, h' => by
    obtain ⟨harguments, hspine⟩ := forall_mem_cons.mp h
    obtain ⟨harguments', hspine'⟩ := forall_mem_cons.mp h'
    have hfirst := determines_all harguments harguments' .rightParen [] (by decide)
    have hrest := determines_spine hspine hspine'
    refine (hfirst.append (fun _ => hrest) (fun _ _ _ _ => nofun) fun _ _ _ _ => nofun).cons.imp ?_
    exact fun hsame => congrArg₂ List.cons hsame.1 hsame.2

theorem avoids_spellSpine (spine : List (List (Expr α))) {r : List Word} (h : Avoids continuers r) :
    Avoids [.elseWord] (spellSpine spine ++ r) := by
  cases spine with
  | nil => exact fun word hword hmem => h word hword (List.mem_cons_of_mem _ hmem)
  | cons arguments rest =>
    intro word hword
    cases hword
    decide

theorem Expr.Rooted.unambiguous {expr : Expr α} (h : expr.Rooted) : expr.Unambiguous := by
  intro other hlegible
  have hroot := h.root other.root other.isCall_root fun node hnode =>
    hlegible node (other.mem_nodes_of_root hnode)
  have hspine := determines_spine h.spine fun arguments harguments argument hargument node hnode =>
    hlegible node (other.mem_nodes_of_spine harguments hargument hnode)
  rw [expr.spelling_eq_append, other.spelling_eq_append]
  refine (hroot.append (fun _ => hspine) (fun _ => avoids_spellSpine _) fun _ =>
    avoids_spellSpine _).imp ?_
  rintro ⟨hroot, hspine⟩
  rw [expr.bare_eq_foldl, other.bare_eq_foldl, hroot, hspine]

/-! ### Words of constructs -/

theorem toString_toInt_inj {value value' : Int64} (h : 0 ≤ value.toInt) (h' : 0 ≤ value'.toInt)
    (heq : toString value.toInt = toString value'.toInt) : value = value' := by
  have hvalue := integer?_toString h
  rw [heq, integer?_toString h'] at hvalue
  exact (Option.some.inj hvalue).symm

theorem UnaryOp.eq_of_word {op op' : UnaryOp} (h : op.kind.word = op'.kind.word) : op = op' := by
  cases op <;> cases op' <;> first | rfl | exact absurd (congrArg Prod.fst h) (by decide)

theorem BinaryOp.eq_of_word {op op' : BinaryOp} (h : op.kind.word = op'.kind.word) : op = op' := by
  have hkind : op.kind = op'.kind := congrArg Prod.fst h
  have hsuffix := op.ofKind?_kind
  rw [hkind, op'.ofKind?_kind] at hsuffix
  exact (Suffix.binary.inj (Option.some.inj hsuffix)).symm

theorem UnaryOp.kind_notMem_leaders (op : UnaryOp) : op.kind ∉ leaders := by
  cases op <;> decide

theorem BinaryOp.kind_notMem_continuers (op : BinaryOp) : op.kind ∉ continuers := by
  cases op <;> decide

theorem BinaryOp.kind_ne_leftBracket (op : BinaryOp) : op.kind ≠ .leftBracket := by
  cases op <;> decide

theorem determines_bool (kinds : List Token.Kind) (value value' : Bool) :
    Determines kinds [(boolKind value).word] [(boolKind value').word] (value = value') := by
  refine (Determines.word fun _ => .same []).imp fun h => ?_
  cases value <;> cases value' <;> first | rfl | exact absurd (congrArg Prod.fst h.1) (by decide)

theorem determines_text (kinds : List Token.Kind) (kind : Token.Kind) (text text' : String) :
    Determines kinds [(kind, text)] [(kind, text')] (text = text') :=
  (Determines.word fun _ => .same []).imp fun h => congrArg Prod.snd h.1

theorem determines_parameters (kinds : List Token.Kind) (parameters parameters' : List (Ident α)) :
    Determines kinds
      (Token.Kind.comma.separated (parameters.map fun parameter => [(.ident, parameter.name)])
        ++ [Token.Kind.rightParen.word])
      (Token.Kind.comma.separated (parameters'.map fun parameter => [(.ident, parameter.name)])
        ++ [Token.Kind.rightParen.word])
      (parameters.map (Ident.relabel fun _ => ())
        = parameters'.map (Ident.relabel fun _ => ())) := by
  have hleads (ps : List (Ident α)) : ∀ parameter ∈ ps,
      LeadsItem .rightParen [(Token.Kind.ident, parameter.name)] :=
    fun _ _ => ⟨_, _, rfl, nofun⟩
  have hparameter (parameter parameter' : Ident α) :
      Determines [] [(.ident, parameter.name)] [(.ident, parameter'.name)]
        (parameter.relabel (fun _ => ()) = parameter'.relabel fun _ => ()) :=
    (determines_text [] .ident parameter.name parameter'.name).imp (congrArg (Ident.mk ()))
  exact .separated (by decide) ⟨List.not_mem_nil, List.not_mem_nil⟩
    (fun parameter _ parameter' _ => hparameter parameter parameter') (hleads _) (hleads _)

/-- One operand of a sign. -/
theorem determines_unary {op op' : UnaryOp} {operand operand' : Expr α}
    (h : operand.Unambiguous) (h' : operand'.Legible) :
    Determines continuers (op.kind.word :: operand.spelling) (op'.kind.word :: operand'.spelling)
      (op = op' ∧ operand.bare = operand'.bare) :=
  (Determines.word fun _ => h operand' h').imp fun hsame =>
    ⟨UnaryOp.eq_of_word hsame.1, hsame.2⟩

theorem determines_binary {op op' : BinaryOp} {lhs rhs lhs' rhs' : Expr α}
    (hlhs : lhs.Unambiguous) (hrhs : rhs.Unambiguous) (hlhs' : lhs'.Legible)
    (hrhs' : rhs'.Legible) :
    Determines continuers (lhs.spelling ++ op.kind.word :: rhs.spelling)
      (lhs'.spelling ++ op'.kind.word :: rhs'.spelling)
      (lhs.bare = lhs'.bare ∧ op = op' ∧ rhs.bare = rhs'.bare) :=
  ((hlhs lhs' hlhs').append_cons (fun _ => .word fun _ => hrhs rhs' hrhs')
    op.kind_notMem_continuers op'.kind_notMem_continuers).imp fun hsame =>
      ⟨hsame.1, BinaryOp.eq_of_word hsame.2.1, hsame.2.2⟩

theorem determines_index {collection position collection' position' : Expr α}
    (hcollection : collection.Unambiguous) (hposition : position.Unambiguous)
    (hcollection' : collection'.Legible) (hposition' : position'.Legible) :
    Determines continuers
      (collection.spelling ++ Token.Kind.leftBracket.word
        :: (position.spelling ++ [Token.Kind.rightBracket.word]))
      (collection'.spelling ++ Token.Kind.leftBracket.word
        :: (position'.spelling ++ [Token.Kind.rightBracket.word]))
      (collection.bare = collection'.bare ∧ position.bare = position'.bare) := by
  have hinside : Determines continuers (position.spelling ++ [Token.Kind.rightBracket.word])
      (position'.spelling ++ [Token.Kind.rightBracket.word]) (position.bare = position'.bare) :=
    ((hposition position' hposition').append_cons (fun _ => .same _) (by decide) (by decide)).imp
      And.left
  exact (hcollection collection' hcollection').append_cons (fun _ => hinside.cons) (by decide)
    (by decide)

/-- A word that begins no expression is told apart from all expressions. -/
theorem determines_leader {kinds : List Token.Kind} {word : Word} (h : word.1 ∉ leaders)
    {expr : Expr α} {ws xs : List Word} {p : Prop} :
    Determines kinds (word :: ws) (expr.spelling ++ xs) p := by
  obtain ⟨first, tail, hspelling, hfirst⟩ := expr.spelling_eq_leader
  rw [hspelling]
  refine .of_ne fun heq => h ?_
  rw [heq]
  exact hfirst

theorem determines_expr {kinds : List Token.Kind} {word : Word} (h : word.1 ∉ leaders)
    {expr : Expr α} {ws : List Word} {p : Prop} :
    Determines kinds (word :: ws) expr.spelling p := by
  rw [← List.append_nil expr.spelling]
  exact determines_leader h

/-- A `return` has a value or none. -/
theorem determines_leave {value : Expr α} {p : Prop} :
    Determines stmtContinuers [Token.Kind.returnWord.word]
      (Token.Kind.returnWord.word :: value.spelling) p := by
  obtain ⟨first, tail, hspelling, hfirst⟩ := value.spelling_eq_cons
  rw [hspelling]
  exact (Determines.of_mem (List.mem_cons_of_mem _ hfirst)).cons

theorem determines_alternative {alternative alternative' : Option (Block α)}
    (h : ∀ block ∈ alternative, block.Unambiguous)
    (h' : ∀ block ∈ alternative', block.Legible) :
    Determines [.elseWord] (spellAlternative alternative) (spellAlternative alternative')
      (relabelAlternative (fun _ => ()) alternative
        = relabelAlternative (fun _ => ()) alternative') := by
  cases alternative with
  | none =>
    cases alternative' with
    | none => exact (Determines.same _).imp fun _ => rfl
    | some block' => exact .of_mem List.mem_cons_self
  | some block =>
    cases alternative' with
    | none => exact .symm (.of_mem List.mem_cons_self)
    | some block' =>
      exact (h block rfl block' [.elseWord] (h' block' rfl)).cons.imp (congrArg some)

theorem determines_branch {condition condition' : Expr α} {consequence consequence' : Block α}
    {alternative alternative' : Option (Block α)} (hcondition : condition.Unambiguous)
    (hconsequence : consequence.Unambiguous)
    (halternative : ∀ block ∈ alternative, block.Unambiguous)
    (hcondition' : condition'.Legible) (hconsequence' : consequence'.Legible)
    (halternative' : ∀ block ∈ alternative', block.Legible) :
    Determines [.elseWord]
      (condition.spelling ++ (consequence.spelling ++ spellAlternative alternative))
      (condition'.spelling ++ (consequence'.spelling ++ spellAlternative alternative'))
      (condition.bare = condition'.bare ∧
        consequence.relabel (fun _ => ()) = consequence'.relabel (fun _ => ()) ∧
        relabelAlternative (fun _ => ()) alternative
          = relabelAlternative (fun _ => ()) alternative') := by
  have hbrace (block : Block α) (xs r : List Word) :
      Avoids continuers (block.spelling ++ xs ++ r) := by
    obtain ⟨ws, hspelling⟩ := block.spelling_eq_cons
    rw [hspelling]
    intro word hword
    cases hword
    decide
  have hblocks := (hconsequence consequence' [] hconsequence').append
    (fun _ => determines_alternative halternative halternative') (fun _ _ _ _ => nofun)
    fun _ _ _ _ => nofun
  exact (hcondition condition' hcondition').append (fun _ => hblocks)
    (fun r _ => hbrace consequence _ r) fun r _ => hbrace consequence' _ r

theorem determines_entries {entries entries' : List (Expr α × Expr α)}
    (h : ∀ entry ∈ entries, entry.1.Unambiguous ∧ entry.2.Unambiguous)
    (h' : ∀ entry ∈ entries', entry.1.Legible ∧ entry.2.Legible) (kinds : List Token.Kind) :
    Determines kinds
      (Token.Kind.comma.separated (spellEntries entries) ++ [Token.Kind.rightBrace.word])
      (Token.Kind.comma.separated (spellEntries entries') ++ [Token.Kind.rightBrace.word])
      (relabelEntries (fun _ => ()) entries = relabelEntries (fun _ => ()) entries') := by
  rw [spellEntries_eq_map, spellEntries_eq_map, relabelEntries_eq_map, relabelEntries_eq_map]
  refine .separated (by decide) (by decide : Token.Kind.comma ∉ continuers ∧ _)
    (fun entry hentry entry' hentry' => ?_)
    (fun entry _ => (leadsExpr_spelling entry.1).leadsItem (by decide) _)
    fun entry _ => (leadsExpr_spelling entry.1).leadsItem (by decide) _
  obtain ⟨hkey, hvalue⟩ := h entry hentry
  obtain ⟨hkey', hvalue'⟩ := h' entry' hentry'
  refine ((hkey _ hkey').append_cons (fun _ => (hvalue _ hvalue').cons) (by decide)
    (by decide)).imp ?_
  exact fun hsame => Prod.ext hsame.1 hsame.2

theorem determines_block {label label' : α} {body body' : List (Stmt α)}
    (h : ∀ stmt ∈ body, stmt.Unambiguous) (h' : ∀ stmt ∈ body', stmt.Legible)
    (kinds : List Token.Kind) :
    Determines kinds (Block.mk label body).spelling (Block.mk label' body').spelling
      (relabelStatements (fun _ => ()) body = relabelStatements (fun _ => ()) body') := by
  have hleads (stmt : Stmt α) : LeadsItem .rightBrace stmt.spelling := by
    obtain ⟨first, tail, hspelling, hfirst⟩ := leadsStmt_spelling stmt
    exact ⟨first, tail, hspelling, fun heq => hfirst (heq ▸ List.mem_cons_self)⟩
  rw [Block.spelling, Block.spelling, spellStatements_eq_map, spellStatements_eq_map,
    relabelStatements_eq_map, relabelStatements_eq_map]
  exact (Determines.separated (by decide)
    (by decide : Token.Kind.semicolon ∉ stmtContinuers ∧ _)
    (fun stmt hstmt stmt' hstmt' => h stmt hstmt stmt' (h' stmt' hstmt'))
    (fun stmt _ => hleads stmt) fun stmt _ => hleads stmt).cons

/-! ### Expressions -/

/-- Expressions that begin differently are told apart by their first words. -/
theorem determines_of_opening_ne {expr other : Expr α} {kind kind' : Token.Kind}
    (h : expr.opening? = some kind) (h' : other.opening? = some kind') (hne : kind ≠ kind')
    {kinds : List Token.Kind} {p : Prop} : Determines kinds expr.spelling other.spelling p := by
  obtain ⟨first, ws, hspelling, rfl⟩ := expr.spelling_of_opening? h
  obtain ⟨first', ws', hspelling', rfl⟩ := other.spelling_of_opening? h'
  rw [hspelling, hspelling']
  exact .of_ne fun heq => hne (congrArg openingOf heq)

namespace Expr.Rooted

variable {label : α}

/-- What is no call has to be told apart only from what begins with the same word. -/
theorem of_opening {expr : Expr α} {kind : Token.Kind} (hkind : expr.opening? = some kind)
    (h : ∀ other : Expr α, other.opening? = some kind → other.Legible →
      Determines [.elseWord] expr.spelling other.spelling (expr.bare = other.bare)) :
    expr.Rooted := by
  obtain ⟨hroot, hspine⟩ := expr.root_of_opening? hkind
  refine ⟨fun other hcall hlegible => ?_, by rw [hspine]; exact nofun⟩
  obtain ⟨kind', hkind'⟩ := other.exists_opening hcall
  rw [hroot]
  by_cases hsame : kind' = kind
  · exact h other (hsame ▸ hkind') hlegible
  · exact determines_of_opening_ne hkind hkind' (Ne.symm hsame)

theorem int {value : Int64} (h : 0 ≤ value.toInt) : (Expr.int label value).Rooted :=
  of_opening rfl fun other hopening hlegible => by
    cases other with
    | int _ value' =>
      refine (determines_text _ .int _ _).imp fun heq => congrArg (Expr.int ()) ?_
      exact toString_toInt_inj h (hlegible _ List.mem_cons_self) heq
    | _ => cases hopening

theorem bool (value : Bool) : (Expr.bool label value).Rooted :=
  of_opening rfl fun other hopening _ => by
    cases other with
    | bool _ value' => exact (determines_bool _ value value').imp (congrArg (Expr.bool ()))
    | _ => cases hopening

theorem name (name : String) : (Expr.name label name).Rooted :=
  of_opening rfl fun other hopening _ => by
    cases other with
    | name _ name' => exact (determines_text _ .ident name name').imp (congrArg (Expr.name ()))
    | _ => cases hopening

theorem string (text : String) : (Expr.string label text).Rooted :=
  of_opening rfl fun other hopening _ => by
    cases other with
    | string _ text' => exact (determines_text _ .string text text').imp (congrArg (Expr.string ()))
    | _ => cases hopening

theorem array {elements : List (Expr α)} (h : ∀ element ∈ elements, element.Unambiguous) :
    (Expr.array label elements).Rooted :=
  of_opening rfl fun other hopening hlegible => by
    cases other with
    | array _ elements' =>
      have h' : ∀ element ∈ elements', element.Legible := fun element helement node hnode =>
        hlegible node (List.mem_cons_of_mem _ (mem_nodesOfAll helement hnode))
      have hlist := determines_all h h' .rightBracket [.elseWord] (by decide)
      rw [← spellAll_eq_map, ← spellAll_eq_map] at hlist
      refine hlist.cons.imp fun hsame => congrArg (Expr.array ()) ?_
      rw [relabelAll_eq_map, relabelAll_eq_map]
      exact hsame
    | _ => cases hopening

theorem map {entries : List (Expr α × Expr α)}
    (h : ∀ entry ∈ entries, entry.1.Unambiguous ∧ entry.2.Unambiguous) :
    (Expr.map label entries).Rooted :=
  of_opening rfl fun other hopening hlegible => by
    cases other with
    | map _ entries' =>
      have h' (entry : Expr α × Expr α) (hentry : entry ∈ entries') :
          entry.1.Legible ∧ entry.2.Legible :=
        forall_mem_append.mp fun node hnode =>
          hlegible node (List.mem_cons_of_mem _ (mem_nodesOfEntries hentry hnode))
      exact (determines_entries h h' _).cons.imp (congrArg (Expr.map ()))
    | _ => cases hopening

theorem unary (op : UnaryOp) {operand : Expr α} (h : operand.Unambiguous) :
    (Expr.unary label op operand).Rooted :=
  of_opening rfl fun other hopening hlegible => by
    cases other with
    | unary _ op' operand' =>
      have h' := (forall_mem_cons.mp hlegible).2
      refine ((determines_unary h h').grouped (by decide)).imp fun hsame => ?_
      exact congrArg₂ (Expr.unary ()) hsame.1 hsame.2
    | binary _ _ _ _ | index _ _ _ =>
      exact (determines_leader op.kind_notMem_leaders).grouped List.not_mem_nil
    | _ => cases hopening

theorem binary (op : BinaryOp) {lhs rhs : Expr α} (hlhs : lhs.Unambiguous)
    (hrhs : rhs.Unambiguous) : (Expr.binary label op lhs rhs).Rooted :=
  of_opening rfl fun other hopening hlegible => by
    cases other with
    | binary _ op' lhs' rhs' =>
      obtain ⟨hlhs', hrhs'⟩ := forall_mem_append.mp (forall_mem_cons.mp hlegible).2
      refine ((determines_binary hlhs hrhs hlhs' hrhs').grouped (by decide)).imp ?_
      rintro ⟨hlhs, rfl, hrhs⟩
      exact congrArg₂ (Expr.binary () op) hlhs hrhs
    | index _ collection' position' =>
      obtain ⟨hcollection', -⟩ := forall_mem_append.mp (forall_mem_cons.mp hlegible).2
      refine Determines.grouped ?_ List.not_mem_nil
      exact (hlhs collection' hcollection').append_of_ne op.kind_ne_leftBracket
        op.kind_notMem_continuers (by decide)
    | unary _ op' _ =>
      exact (determines_leader op'.kind_notMem_leaders).symm.grouped List.not_mem_nil
    | _ => cases hopening

theorem index {collection position : Expr α} (hcollection : collection.Unambiguous)
    (hposition : position.Unambiguous) : (Expr.index label collection position).Rooted :=
  of_opening rfl fun other hopening hlegible => by
    cases other with
    | index _ collection' position' =>
      obtain ⟨hcollection', hposition'⟩ := forall_mem_append.mp (forall_mem_cons.mp hlegible).2
      have hinside := determines_index hcollection hposition hcollection' hposition'
      refine (hinside.grouped (by decide)).imp fun hsame => ?_
      exact congrArg₂ (Expr.index ()) hsame.1 hsame.2
    | binary _ op' lhs' rhs' =>
      obtain ⟨hlhs', -⟩ := forall_mem_append.mp (forall_mem_cons.mp hlegible).2
      refine Determines.grouped ?_ List.not_mem_nil
      exact (hcollection lhs' hlhs').append_of_ne op'.kind_ne_leftBracket.symm (by decide)
        op'.kind_notMem_continuers
    | unary _ op' _ =>
      exact (determines_leader op'.kind_notMem_leaders).symm.grouped List.not_mem_nil
    | _ => cases hopening

theorem branch {condition : Expr α} {consequence : Block α} {alternative : Option (Block α)}
    (hcondition : condition.Unambiguous) (hconsequence : consequence.Unambiguous)
    (halternative : ∀ block ∈ alternative, block.Unambiguous) :
    (Expr.branch label condition consequence alternative).Rooted :=
  of_opening rfl fun other hopening hlegible => by
    cases other with
    | branch _ condition' consequence' alternative' =>
      obtain ⟨hlegible, halternative'⟩ := forall_mem_append.mp (forall_mem_cons.mp hlegible).2
      obtain ⟨hcondition', hconsequence'⟩ := forall_mem_append.mp hlegible
      have halternative' : ∀ block ∈ alternative', block.Legible := by
        rintro block rfl
        exact halternative'
      have hparts := determines_branch hcondition hconsequence halternative hcondition'
        hconsequence' halternative'
      refine hparts.cons.imp ?_
      rintro ⟨hcondition, hconsequence, halternative⟩
      simp only [Expr.bare] at hcondition
      simp only [Expr.bare, Expr.relabel, hcondition, hconsequence, halternative]
    | _ => cases hopening

theorem function {parameters : List (Ident α)} {body : Block α} (h : body.Unambiguous) :
    (Expr.function label parameters body).Rooted :=
  of_opening rfl fun other hopening hlegible => by
    cases other with
    | function _ parameters' body' =>
      have h' := (forall_mem_append.mp (forall_mem_cons.mp hlegible).2).2
      have hparts := (determines_parameters [] parameters parameters').append
        (fun _ => h body' [.elseWord] h') (fun _ _ _ _ => nofun) fun _ _ _ _ => nofun
      rw [← List.append_cons, ← List.append_cons] at hparts
      refine hparts.cons.cons.imp fun hsame => ?_
      exact congrArg₂ (Expr.function ()) hsame.1 hsame.2
    | _ => cases hopening

theorem call {callee : Expr α} {arguments : List (Expr α)} (hcallee : callee.Rooted)
    (harguments : ∀ argument ∈ arguments, argument.Unambiguous) :
    (Expr.call label callee arguments).Rooted :=
  ⟨hcallee.root, forall_mem_append.mpr ⟨hcallee.spine, List.forall_mem_singleton.mpr harguments⟩⟩

end Expr.Rooted

/-! ### Statements -/

namespace Stmt.Unambiguous

variable {label : α}

theorem bind (target : Ident α) {value : Expr α} (h : value.Unambiguous) :
    (Stmt.bind label target value).Unambiguous := by
  intro other hlegible
  cases other with
  | bind _ target' value' =>
    have h' := (forall_mem_cons.mp (forall_mem_cons.mp hlegible).2).2
    have hinside := (h value' h').mono mem_stmtContinuers
    refine (Determines.word fun _ => hinside.cons).cons.imp fun hsame => ?_
    have hname : target.name = target'.name := congrArg Prod.snd hsame.1
    exact congrArg₂ (Stmt.bind ()) (congrArg (Ident.mk ()) hname) hsame.2
  | leave _ value' => cases value' <;> exact .of_ne nofun
  | expr _ value' => exact determines_expr (by decide)
  | block _ => exact (hlegible _ List.mem_cons_self).elim

theorem leaveBare : (Stmt.leave label none).Unambiguous := by
  intro other hlegible
  cases other with
  | leave _ value' =>
    cases value' with
    | none => exact (Determines.same _).imp fun _ => rfl
    | some value' => exact determines_leave
  | bind _ _ _ => exact .of_ne nofun
  | expr _ value' => exact determines_expr (by decide)
  | block _ => exact (hlegible _ List.mem_cons_self).elim

theorem leaveWith {value : Expr α} (h : value.Unambiguous) :
    (Stmt.leave label (some value)).Unambiguous := by
  intro other hlegible
  cases other with
  | leave _ value' =>
    cases value' with
    | none => exact determines_leave.symm
    | some value' =>
      have hinside := h value' (forall_mem_cons.mp hlegible).2
      exact (hinside.mono mem_stmtContinuers).cons.imp
        (congrArg fun bare => Stmt.leave () (some bare))
  | bind _ _ _ => exact .of_ne nofun
  | expr _ value' => exact determines_expr (by decide)
  | block _ => exact (hlegible _ List.mem_cons_self).elim

theorem expr {value : Expr α} (h : value.Unambiguous) : (Stmt.expr label value).Unambiguous := by
  intro other hlegible
  cases other with
  | expr _ value' =>
    have hinside := h value' (forall_mem_cons.mp hlegible).2
    exact (hinside.mono mem_stmtContinuers).imp (congrArg (Stmt.expr ()))
  | leave _ value' => cases value' <;> exact (determines_expr (by decide)).symm
  | bind _ _ _ => exact (determines_expr (by decide)).symm
  | block _ => exact (hlegible _ List.mem_cons_self).elim

end Stmt.Unambiguous

theorem Block.Unambiguous.of_body {label : α} {body : List (Stmt α)}
    (h : ∀ stmt ∈ body, stmt.Unambiguous) : (Block.mk label body).Unambiguous := by
  rintro ⟨_, body'⟩ kinds hlegible
  have h' : ∀ stmt ∈ body', stmt.Legible := fun stmt hstmt node hnode =>
    hlegible node (mem_nodesOfStatements hstmt hnode)
  exact (determines_block h h' kinds).imp (congrArg (Block.mk ()))

end Scriptlet.Grammar
