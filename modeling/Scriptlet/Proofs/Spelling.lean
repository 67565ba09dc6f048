import Mathlib.Data.List.Forall2
import Scriptlet.Grammar.Render
import Scriptlet.Proofs.Labels
import Scriptlet.Proofs.Success

/-! # The spelling of trees

The words of the canonical text of a tree. Nothing in the text runs into what stands next to it, so
the text is read as these words whatever delimiter follows it.
-/

namespace Scriptlet

namespace Token

/-! ### Texts that are put together -/

/-- No word ends otherwise in front of the text than at its own end. -/
def Delimits (rest : List Char) : Prop :=
  ∀ c ∈ rest.head?, Lexeme.isWordChar c = false ∧ c.isDigit = false ∧ c ≠ '='

theorem Delimits.nil : Delimits [] := nofun

theorem Delimits.mark {c : Char} {kind : Kind} (h : Kind.ofMark? c = some kind) (cs : List Char) :
    Delimits (c :: cs) := by
  intro d hd
  cases hd
  unfold Kind.ofMark? at h
  split at h <;> first | exact ⟨by decide +kernel, by decide, by decide⟩ | cases h

theorem Delimits.space (cs : List Char) : Delimits (' ' :: cs) := by
  intro d hd
  cases hd
  exact ⟨by decide +kernel, by decide, by decide⟩

theorem Delimits.apart {rest : List Char} (h : Delimits rest) (word : Word) : word.Apart rest := by
  intro c hc
  obtain ⟨hword, hdigit, hequal⟩ := h c hc
  obtain ⟨kind, literal⟩ := word
  cases kind <;> simp [Kind.endsBefore, hword, hdigit, hequal]

namespace Kind

/-- The word of a kind that is always written the same way. -/
def word (kind : Kind) : Word :=
  (kind, kind.text?.getD "")

theorem word_of_mark {c : Char} {kind : Kind} (h : ofMark? c = some kind) :
    kind.word = (kind, String.singleton c) := by
  unfold ofMark? at h
  split at h <;> cases h <;> rfl

theorem proper_word {kind : Kind} {text : String} (h : kind.text? = some text) :
    kind.word.Proper := by
  cases kind <;> first | exact rfl | cases h

theorem chars_word {kind : Kind} {text : String} (h : kind.text? = some text) :
    kind.word.chars = text.toList := by
  cases kind <;> cases h <;> rfl

/-- Words one behind the other, with one of the given kind between them. -/
def separated (kind : Kind) (spellings : List (List Word)) : List Word :=
  [kind.word].intercalate spellings

theorem separated_singleton (kind : Kind) (ws : List Word) : kind.separated [ws] = ws :=
  List.intercalate_singleton

theorem separated_cons_cons (kind : Kind) (ws xs : List Word) (rest : List (List Word)) :
    kind.separated (ws :: xs :: rest) = ws ++ kind.word :: kind.separated (xs :: rest) := by
  simp [separated]

end Kind

/-- The text is read as these words, and what follows it does not change that. -/
def Spells (cs : List Char) (ws : List Word) : Prop :=
  ∀ rest, Delimits rest → words (cs ++ rest) = ws ++ words rest

namespace Spells

variable {cs ds : List Char} {ws xs : List Word} {c : Char} {kind : Kind}

theorem nil : Spells [] [] :=
  fun _ _ => rfl

theorem word {word : Word} (h : word.Proper) : Spells word.chars [word] :=
  fun _ hrest => words_append h (hrest.apart word)

theorem name {name : String} (h : Word.Proper (.ident, name)) :
    Spells name.toList [(.ident, name)] :=
  word h

theorem fixed {text : String} (h : kind.text? = some text) : Spells text.toList [kind.word] :=
  Kind.chars_word h ▸ word (Kind.proper_word h)

theorem mark (h : Kind.ofMark? c = some kind) (hds : Spells ds xs) :
    Spells (c :: ds) (kind.word :: xs) := by
  intro rest hrest
  rw [List.cons_append, words_mark h, hds rest hrest, List.cons_append, Kind.word_of_mark h]

theorem space (hds : Spells ds xs) : Spells (' ' :: ds) xs := by
  intro rest hrest
  rw [List.cons_append, words_cons_blank (by decide), hds rest hrest]

theorem append (hcs : Spells cs ws) (hds : Spells ds xs)
    (h : ∀ rest, Delimits rest → Delimits (ds ++ rest)) : Spells (cs ++ ds) (ws ++ xs) := by
  intro rest hrest
  rw [List.append_assoc, hcs _ (h rest hrest), hds rest hrest, List.append_assoc]

/-- A text goes up to a mark that follows it. -/
theorem append_mark (hcs : Spells cs ws) (h : Kind.ofMark? c = some kind) (hds : Spells ds xs) :
    Spells (cs ++ c :: ds) (ws ++ kind.word :: xs) :=
  hcs.append (hds.mark h) fun rest _ => .mark h (ds ++ rest)

/-- A text goes up to a space that follows it. -/
theorem append_space (hcs : Spells cs ws) (hds : Spells ds xs) :
    Spells (cs ++ ' ' :: ds) (ws ++ xs) :=
  hcs.append hds.space fun rest _ => .space (ds ++ rest)

/-- Texts with a mark and a space between them. -/
theorem separated (h : Kind.ofMark? c = some kind) {texts : List String}
    {spellings : List (List Word)}
    (hall : List.Forall₂ (fun text spelling => Spells text.toList spelling) texts spellings) :
    Spells ([c, ' '].intercalate (texts.map String.toList)) (kind.separated spellings) := by
  induction hall with
  | nil => exact nil
  | cons hfirst hrest ih =>
    cases hrest with
    | nil => simpa [Kind.separated_singleton] using hfirst
    | cons _ _ =>
      simp only [Kind.separated_cons_cons, List.map_cons, List.intercalate_cons_cons,
        List.append_assoc, List.cons_append, List.nil_append] at ih ⊢
      exact hfirst.append_mark h ih.space

/-- A `!` does not run into a text that does not begin with `=`. -/
theorem bang {first : Word} (hcs : Spells cs (first :: ws)) (h : first.1 ∉ [.assign, .equal]) :
    Spells ('!' :: cs) (Kind.bang.word :: first :: ws) := by
  intro rest hrest
  have hapart : Kind.bang.word.Apart (cs ++ rest) := by
    intro c hc
    change (c != '=') = true
    rw [bne_iff_ne]
    rintro rfl
    obtain ⟨ds, hds⟩ : ∃ ds, cs ++ rest = '=' :: ds := ⟨_, List.eq_cons_of_mem_head? hc⟩
    have hwords := hcs rest hrest
    rw [hds, words_cons (by decide)] at hwords
    have hkind : (Lexeme.maybeEqual .assign .equal '=' ds).kind = first.1 :=
      congrArg Prod.fst (List.cons.inj hwords).1
    rw [← hkind] at h
    rcases Lexeme.kind_maybeEqual .assign .equal '=' ds with hassign | hequal
    · exact h (by rw [hassign]; decide)
    · exact h (by rw [hequal]; decide)
  rw [List.cons_append, List.cons_append, ← hcs rest hrest]
  exact words_append (Kind.proper_word rfl) hapart

end Spells

end Token

namespace Grammar

open Token (Word Spells)

variable {α : Type}

def BinaryOp.kind : BinaryOp → Token.Kind
  | .multiply => .star
  | .divide => .slash
  | .add => .plus
  | .subtract => .minus
  | .less => .less
  | .greater => .greater
  | .equal => .equal
  | .notEqual => .notEqual

theorem BinaryOp.ofKind?_kind (op : BinaryOp) : Suffix.ofKind? op.kind = some (.binary op) := by
  cases op <;> rfl

theorem BinaryOp.text?_kind (op : BinaryOp) : op.kind.text? = some op.symbol := by
  cases op <;> rfl

/-- Words between parentheses. -/
def grouped (ws : List Word) : List Word :=
  Token.Kind.leftParen.word :: (ws ++ [Token.Kind.rightParen.word])

mutual

/-- The words of the canonical text of a tree. -/
def Expr.spelling : Expr α → List Word
  | .int _ value => [(.int, toString value.toInt)]
  | .bool _ value => [(boolKind value).word]
  | .name _ name => [(.ident, name)]
  | .string _ text => [(.string, text)]
  | .array _ elements =>
    Token.Kind.leftBracket.word
      :: (Token.Kind.comma.separated (spellAll elements) ++ [Token.Kind.rightBracket.word])
  | .map _ entries =>
    Token.Kind.leftBrace.word
      :: (Token.Kind.comma.separated (spellEntries entries) ++ [Token.Kind.rightBrace.word])
  | .unary _ op operand => grouped (op.kind.word :: operand.spelling)
  | .binary _ op lhs rhs => grouped (lhs.spelling ++ op.kind.word :: rhs.spelling)
  | .branch _ condition consequence alternative =>
    Token.Kind.ifWord.word
      :: (condition.spelling ++ (consequence.spelling ++ spellAlternative alternative))
  | .function _ parameters body =>
    Token.Kind.fnWord.word :: Token.Kind.leftParen.word
      :: (Token.Kind.comma.separated (parameters.map fun parameter => [(.ident, parameter.name)])
        ++ Token.Kind.rightParen.word :: body.spelling)
  | .call _ callee arguments =>
    callee.spelling ++ Token.Kind.leftParen.word
      :: (Token.Kind.comma.separated (spellAll arguments) ++ [Token.Kind.rightParen.word])
  | .index _ collection position =>
    grouped (collection.spelling ++ Token.Kind.leftBracket.word
      :: (position.spelling ++ [Token.Kind.rightBracket.word]))

def spellAll : List (Expr α) → List (List Word)
  | [] => []
  | expr :: rest => expr.spelling :: spellAll rest

def spellEntries : List (Expr α × Expr α) → List (List Word)
  | [] => []
  | (key, value) :: rest =>
    (key.spelling ++ Token.Kind.colon.word :: value.spelling) :: spellEntries rest

def spellAlternative : Option (Block α) → List Word
  | none => []
  | some block => Token.Kind.elseWord.word :: block.spelling

def Block.spelling : Block α → List Word
  | .mk _ body =>
    Token.Kind.leftBrace.word
      :: (Token.Kind.semicolon.separated (spellStatements body) ++ [Token.Kind.rightBrace.word])

def Stmt.spelling : Stmt α → List Word
  | .bind _ target value =>
    Token.Kind.letWord.word :: (.ident, target.name) :: Token.Kind.assign.word :: value.spelling
  | .leave _ none => [Token.Kind.returnWord.word]
  | .leave _ (some value) => Token.Kind.returnWord.word :: value.spelling
  | .expr _ value => value.spelling
  | .block inner => inner.spelling

def spellStatements : List (Stmt α) → List (List Word)
  | [] => []
  | stmt :: rest => stmt.spelling :: spellStatements rest

end

theorem Expr.spelling_eq_cons : ∀ expr : Expr α, ∃ first ws,
    expr.spelling = first :: ws ∧ first.1 ∈ starters
  | .int _ _ | .name _ _ | .string _ _ => ⟨_, _, rfl, by simp [starters]⟩
  | .bool _ value => ⟨_, _, rfl, by cases value <;> decide⟩
  | .array _ _ | .map _ _ | .unary _ _ _ | .binary _ _ _ _ | .branch _ _ _ _ | .function _ _ _
  | .index _ _ _ => ⟨_, _, rfl, by decide⟩
  | .call _ callee _ => by
    obtain ⟨first, ws, hcallee, hfirst⟩ := callee.spelling_eq_cons
    exact ⟨first, _, by rw [Expr.spelling, hcallee, List.cons_append], hfirst⟩

/-! ### The canonical text -/

theorem delimits_renderAlternative (alternative : Option (Block α)) (rest : List Char)
    (h : Token.Delimits rest) :
    Token.Delimits ((renderAlternative alternative).toList ++ rest) := by
  cases alternative with
  | none => exact h
  | some block =>
    simp only [renderAlternative, String.toList_append, String.reduceToList, List.cons_append]
    exact .space _

theorem proper_toString {value : Int64} (h : 0 ≤ value.toInt) :
    Word.Proper (.int, toString value.toInt) := by
  obtain ⟨n, hn⟩ := Int.eq_ofNat_of_zero_le h
  have htext : (toString value.toInt).toList = Nat.toDigits 10 n := by
    rw [hn]
    exact Nat.toList_repr
  simp only [Word.Proper, htext]
  exact ⟨Nat.toDigits_ne_nil, fun c hc => Nat.isDigit_of_mem_toDigits (by decide) (by decide) hc⟩

theorem forall₂_map {γ : Type} {texts : γ → String} {spellings : γ → List Word} (items : List γ)
    (h : ∀ item ∈ items, Spells (texts item).toList (spellings item)) :
    List.Forall₂ (fun text spelling => Spells text.toList spelling) (items.map texts)
      (items.map spellings) := by
  rw [List.forall₂_map_left_iff, List.forall₂_map_right_iff, List.forall₂_same]
  exact h

open List (forall_mem_append forall_mem_cons forall_mem_singleton)

mutual

/-- The canonical text of a tree is read as its spelling. -/
theorem Expr.spells_render : ∀ expr : Expr α, (∀ node ∈ expr.nodes, node.Legible) →
    Spells expr.render.toList expr.spelling
  | .int _ value, h => by
    exact Spells.word (proper_toString (h _ List.mem_cons_self))
  | .bool _ value, _ => by cases value <;> exact Spells.fixed rfl
  | .name _ name, h => by
    exact Spells.name (h _ List.mem_cons_self)
  | .string _ text, h => by
    have htext : Word.Proper (.string, text) := h _ List.mem_cons_self
    simpa [Expr.render, Expr.spelling, Word.chars] using Spells.word htext
  | .array _ elements, h => by
    have helements := spells_renderAll elements (forall_mem_cons.mp h).2
    simp only [Expr.render, String.toList_append, String.toList_intercalate, String.reduceToList,
      List.cons_append, List.nil_append]
    exact .mark rfl ((Spells.separated rfl helements).append_mark rfl .nil)
  | .map _ entries, h => by
    have hentries := spells_renderEntries entries (forall_mem_cons.mp h).2
    simp only [Expr.render, String.toList_append, String.toList_intercalate, String.reduceToList,
      List.cons_append, List.nil_append]
    exact .mark rfl ((Spells.separated rfl hentries).append_mark rfl .nil)
  | .unary _ op operand, h => by
    have hoperand := operand.spells_render (forall_mem_cons.mp h).2
    obtain ⟨first, ws, hspelling, hfirst⟩ := operand.spelling_eq_cons
    simp only [Expr.render, String.toList_append, String.reduceToList, List.append_assoc,
      List.cons_append, List.nil_append]
    refine .mark rfl ?_
    cases op with
    | not =>
      have hstart : ∀ kind ∈ starters, kind ∉ [.assign, .equal] := by decide
      have hbang := (hspelling ▸ hoperand).bang (hstart first.1 hfirst)
      rw [hspelling]
      exact hbang.append_mark rfl .nil
    | negate => exact .mark rfl (hoperand.append_mark rfl .nil)
  | .binary _ op lhs rhs, h => by
    obtain ⟨hlhs, hrhs⟩ := forall_mem_append.mp (forall_mem_cons.mp h).2
    have hlhs := lhs.spells_render hlhs
    have hrhs := rhs.spells_render hrhs
    have hop := Spells.fixed op.text?_kind
    simp only [Expr.render, String.toList_append, String.reduceToList, List.append_assoc,
      List.cons_append, List.nil_append, Expr.spelling, grouped]
    exact .mark rfl (hlhs.append_space (hop.append_space (hrhs.append_mark rfl .nil)))
  | .branch _ condition consequence alternative, h => by
    obtain ⟨h, halternative⟩ := forall_mem_append.mp (forall_mem_cons.mp h).2
    obtain ⟨hcondition, hconsequence⟩ := forall_mem_append.mp h
    have hcondition := condition.spells_render hcondition
    have hconsequence := consequence.spells_render hconsequence
    have halternative := spells_renderAlternative alternative halternative
    have hword : Spells "if".toList [Token.Kind.ifWord.word] := Spells.fixed rfl
    simp only [Expr.render, String.toList_append, String.reduceToList, List.append_assoc,
      List.cons_append, List.nil_append] at hword ⊢
    exact hword.append_space (hcondition.append_space
      (hconsequence.append halternative (delimits_renderAlternative alternative)))
  | .function _ parameters body, h => by
    obtain ⟨hparameters, hbody⟩ := forall_mem_append.mp (forall_mem_cons.mp h).2
    have hbody := body.spells_render hbody
    have hnames := forall₂_map parameters fun parameter hparameter =>
      Spells.name (hparameters _ (List.mem_map_of_mem hparameter))
    have hword : Spells "fn".toList [Token.Kind.fnWord.word] := Spells.fixed rfl
    simp only [Expr.render, String.toList_append, String.toList_intercalate, String.reduceToList,
      List.append_assoc, List.cons_append, List.nil_append] at hword ⊢
    exact hword.append_mark rfl ((Spells.separated rfl hnames).append_mark rfl hbody.space)
  | .call _ callee arguments, h => by
    obtain ⟨hcallee, harguments⟩ := forall_mem_append.mp (forall_mem_cons.mp h).2
    have hcallee := callee.spells_render hcallee
    have harguments := spells_renderAll arguments harguments
    simp only [Expr.render, String.toList_append, String.toList_intercalate, String.reduceToList,
      List.append_assoc, List.cons_append, List.nil_append]
    exact hcallee.append_mark rfl ((Spells.separated rfl harguments).append_mark rfl .nil)
  | .index _ collection position, h => by
    obtain ⟨hcollection, hposition⟩ := forall_mem_append.mp (forall_mem_cons.mp h).2
    have hcollection := collection.spells_render hcollection
    have hposition := position.spells_render hposition
    simp only [Expr.render, String.toList_append, String.reduceToList, List.append_assoc,
      List.cons_append, List.nil_append, Expr.spelling, grouped]
    exact .mark rfl (hcollection.append_mark rfl (hposition.append_mark rfl (.mark rfl .nil)))

theorem spells_renderAll : ∀ values : List (Expr α), (∀ node ∈ nodesOfAll values, node.Legible) →
    List.Forall₂ (fun text spelling => Spells text.toList spelling) (renderAll values)
      (spellAll values)
  | [], _ => .nil
  | expr :: rest, h => by
    obtain ⟨hexpr, hrest⟩ := forall_mem_append.mp h
    exact .cons (expr.spells_render hexpr) (spells_renderAll rest hrest)

theorem spells_renderEntries : ∀ entries : List (Expr α × Expr α),
    (∀ node ∈ nodesOfEntries entries, node.Legible) →
    List.Forall₂ (fun text spelling => Spells text.toList spelling) (renderEntries entries)
      (spellEntries entries)
  | [], _ => .nil
  | (key, value) :: rest, h => by
    obtain ⟨h, hrest⟩ := forall_mem_append.mp h
    obtain ⟨hkey, hvalue⟩ := forall_mem_append.mp h
    refine .cons ?_ (spells_renderEntries rest hrest)
    have hkey := key.spells_render hkey
    have hvalue := value.spells_render hvalue
    simp only [String.toList_append, String.reduceToList, List.append_assoc, List.cons_append,
      List.nil_append]
    exact hkey.append_mark rfl hvalue.space

theorem spells_renderAlternative : ∀ alternative : Option (Block α),
    (∀ node ∈ nodesOfAlternative alternative, node.Legible) →
    Spells (renderAlternative alternative).toList (spellAlternative alternative)
  | none, _ => Spells.nil
  | some block, h => by
    have hblock := block.spells_render h
    have hword : Spells "else".toList [Token.Kind.elseWord.word] := Spells.fixed rfl
    simp only [renderAlternative, String.toList_append, String.reduceToList, List.cons_append,
      List.nil_append] at hword ⊢
    exact .space (hword.append_space hblock)

theorem Block.spells_render : ∀ block : Block α, (∀ node ∈ block.nodes, node.Legible) →
    Spells block.render.toList block.spelling
  | .mk _ [], _ => by
    simp only [Block.render, String.reduceToList]
    exact .mark rfl (.space (.mark rfl .nil))
  | .mk _ (first :: rest), h => by
    have hstmts := spells_renderStatements (first :: rest) h
    simp only [Block.render, String.toList_append, String.toList_intercalate, String.reduceToList,
      List.cons_append, List.nil_append]
    exact .mark rfl (.space ((Spells.separated rfl hstmts).append_space (.mark rfl .nil)))

theorem Stmt.spells_render : ∀ stmt : Stmt α, (∀ node ∈ stmt.nodes, node.Legible) →
    Spells stmt.render.toList stmt.spelling
  | .bind _ target value, h => by
    obtain ⟨htarget, hvalue⟩ := forall_mem_cons.mp (forall_mem_cons.mp h).2
    have hvalue := value.spells_render hvalue
    have hname := Spells.name htarget
    have hword : Spells "let".toList [Token.Kind.letWord.word] := Spells.fixed rfl
    have hsign : Spells "=".toList [Token.Kind.assign.word] := Spells.fixed rfl
    simp only [Stmt.render, String.toList_append, String.reduceToList, List.append_assoc,
      List.cons_append, List.nil_append] at hword hsign ⊢
    exact hword.append_space (hname.append_space (hsign.append_space hvalue))
  | .leave _ none, _ => Spells.fixed rfl
  | .leave _ (some value), h => by
    have hvalue := value.spells_render (forall_mem_cons.mp h).2
    have hword : Spells "return".toList [Token.Kind.returnWord.word] := Spells.fixed rfl
    simp only [Stmt.render, String.toList_append, String.reduceToList, List.cons_append,
      List.nil_append] at hword ⊢
    exact hword.append_space hvalue
  | .expr _ value, h => value.spells_render (forall_mem_cons.mp h).2
  | .block _, h => (h _ List.mem_cons_self).elim

theorem spells_renderStatements : ∀ stmts : List (Stmt α),
    (∀ node ∈ nodesOfStatements stmts, node.Legible) →
    List.Forall₂ (fun text spelling => Spells text.toList spelling) (renderStatements stmts)
      (spellStatements stmts)
  | [], _ => .nil
  | stmt :: rest, h => by
    obtain ⟨hstmt, hrest⟩ := forall_mem_append.mp h
    exact .cons (stmt.spells_render hstmt) (spells_renderStatements rest hrest)

end

end Grammar

end Scriptlet
