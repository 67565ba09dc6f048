import Scriptlet.Proofs.Labels
import Scriptlet.Proofs.Parts
import Scriptlet.Store

/-! # What stands between quotes

Strings are written between quotes and without escapes. As long as no string has a quote in it, the
quotes of a text come in pairs, and the text tells which strings were written and where a line ends
that is not within one of them.
-/

namespace Scriptlet

namespace Text

/-- The text of one line, line ends in strings apart, has these strings between its quotes. -/
inductive Quotes : List Char → List String → Prop
  | nil : Quotes [] []
  | plain {c cs texts} : c ≠ '"' → c ≠ '\n' → Quotes cs texts → Quotes (c :: cs) texts
  | quoted {text cs texts} : '"' ∉ text.toList → Quotes cs texts →
      Quotes ('"' :: (text.toList ++ '"' :: cs)) (text :: texts)

/-- Neither a quote nor a line end occurs. -/
def Plain (text : String) : Prop :=
  ∀ c ∈ text.toList, c ≠ '"' ∧ c ≠ '\n'

instance (text : String) : Decidable (Plain text) :=
  List.decidableBAll (fun c => c ≠ '"' ∧ c ≠ '\n') text.toList

namespace Quotes

variable {as bs : List Char} {a b : String} {texts texts' : List String}

theorem of_chars {cs : List Char} (h : ∀ c ∈ cs, c ≠ '"' ∧ c ≠ '\n') : Quotes cs [] := by
  induction cs with
  | nil => exact nil
  | cons c cs ih =>
    obtain ⟨hc, hcs⟩ := List.forall_mem_cons.mp h
    exact plain hc.1 hc.2 (ih hcs)

theorem append_chars (ha : Quotes as texts) (hb : Quotes bs texts') :
    Quotes (as ++ bs) (texts ++ texts') := by
  induction ha with
  | nil => exact hb
  | plain hquote hline _ ih => exact plain hquote hline ih
  | quoted htext _ ih =>
    rw [List.cons_append, List.append_assoc, List.cons_append]
    exact quoted htext ih

theorem append (ha : Quotes a.toList texts) (hb : Quotes b.toList texts') :
    Quotes (a ++ b).toList (texts ++ texts') := by
  rw [String.toList_append]
  exact ha.append_chars hb

theorem append_plain (ha : Quotes a.toList texts) (hb : Plain b) :
    Quotes (a ++ b).toList texts := by
  have h := ha.append (of_chars hb)
  rwa [List.append_nil] at h

theorem after (hb : Quotes b.toList texts) (ha : Plain a) : Quotes (a ++ b).toList texts :=
  (of_chars ha).append hb

theorem string {text : String} (h : '"' ∉ text.toList) :
    Quotes ("\"" ++ text ++ "\"").toList [text] := by
  simpa using quoted h nil

/-- The first quote is found. -/
theorem append_quote_inj {rest rest' : List Char} (has : '"' ∉ as) (hbs : '"' ∉ bs)
    (h : as ++ '"' :: rest = bs ++ '"' :: rest') : as = bs ∧ rest = rest' := by
  have hquote : ∀ tail : List Char, ∀ c ∈ ('"' :: tail).head?, (c != '"') = false := by simp
  have hinside {cs : List Char} (hcs : '"' ∉ cs) : ∀ c ∈ cs, (c != '"') = true := by
    intro c hc
    rw [bne_iff_ne]
    rintro rfl
    exact hcs hc
  obtain ⟨htake, -⟩ := Token.takeWhile_append_of_head? (hinside has) (hquote rest)
  obtain ⟨htake', -⟩ := Token.takeWhile_append_of_head? (hinside hbs) (hquote rest')
  rw [h, htake'] at htake
  subst htake
  exact ⟨rfl, (List.cons.inj (List.append_cancel_left h)).2⟩

/-- A line end that is not quoted is found, and so are the strings in front of it. -/
theorem append_newline_inj (ha : Quotes as texts) (hb : Quotes bs texts') {rest rest' : List Char}
    (h : as ++ '\n' :: rest = bs ++ '\n' :: rest') : as = bs ∧ texts = texts' ∧ rest = rest' := by
  induction ha generalizing bs texts' with
  | nil =>
    cases hb with
    | nil => exact ⟨rfl, rfl, (List.cons.inj h).2⟩
    | plain _ hline _ => exact absurd (List.cons.inj h).1.symm hline
    | quoted _ _ => exact absurd (List.cons.inj h).1 (by decide)
  | plain hquote hline _ ih =>
    cases hb with
    | nil => exact absurd (List.cons.inj h).1 hline
    | plain _ _ hrest =>
      obtain ⟨hhead, htail⟩ := List.cons.inj h
      obtain ⟨rfl, htexts⟩ := ih hrest htail
      exact ⟨congrArg (· :: _) hhead, htexts⟩
    | quoted _ _ => exact absurd (List.cons.inj h).1 hquote
  | quoted htext _ ih =>
    cases hb with
    | nil => exact absurd (List.cons.inj h).1 (by decide)
    | plain hquote _ _ => exact absurd (List.cons.inj h).1.symm hquote
    | quoted htext' hrest =>
      simp only [List.cons_append, List.append_assoc, List.cons.injEq, true_and] at h
      obtain ⟨hsame, hbehind⟩ := append_quote_inj htext htext' h
      rw [String.toList_inj] at hsame
      subst hsame
      obtain ⟨rfl, rfl, hends⟩ := ih hrest hbehind
      exact ⟨rfl, rfl, hends⟩

/-- A text is quoted in one way only. -/
theorem unique (h : Quotes as texts) (h' : Quotes as texts') : texts = texts' :=
  (h.append_newline_inj h' (rfl : as ++ ['\n'] = as ++ ['\n'])).2.1

/-- A text of lines has no other lines. -/
theorem lines_inj {lines lines' : List String}
    (h : ∀ line ∈ lines, ∃ texts, Quotes line.toList texts)
    (h' : ∀ line ∈ lines', ∃ texts, Quotes line.toList texts)
    (heq : lines.flatMap (·.toList ++ ['\n']) = lines'.flatMap (·.toList ++ ['\n'])) :
    lines = lines' := by
  induction lines generalizing lines' with
  | nil =>
    cases lines' with
    | nil => rfl
    | cons line' rest' => simp at heq
  | cons line rest ih =>
    cases lines' with
    | nil => simp at heq
    | cons line' rest' =>
      obtain ⟨⟨texts, hline⟩, hrest⟩ := List.forall_mem_cons.mp h
      obtain ⟨⟨texts', hline'⟩, hrest'⟩ := List.forall_mem_cons.mp h'
      simp only [List.flatMap_cons, List.append_assoc, List.singleton_append] at heq
      obtain ⟨hsame, -, hbehind⟩ := hline.append_newline_inj hline' heq
      rw [String.toList_inj.mp hsame, ih hrest hrest' hbehind]

/-- Pieces of text that have these strings between their quotes, all in all. -/
inductive Each : List String → List String → Prop
  | nil : Each [] []
  | cons {piece pieces texts texts'} : Quotes piece.toList texts → Each pieces texts' →
      Each (piece :: pieces) (texts ++ texts')

theorem intercalate {separator : String} (hseparator : Plain separator) {pieces : List String}
    (h : Each pieces texts) : Quotes (separator.intercalate pieces).toList texts := by
  induction h with
  | nil => exact nil
  | @cons piece pieces _ _ hpiece hpieces ih =>
    cases hpieces with
    | nil => simpa using hpiece
    | cons _ _ =>
      rw [String.intercalate_cons_of_ne_nil (List.cons_ne_nil _ _)]
      exact (hpiece.append_plain hseparator).append ih

theorem each_of_plain {pieces : List String} (h : ∀ piece ∈ pieces, Plain piece) :
    Each pieces [] := by
  induction pieces with
  | nil => exact .nil
  | cons piece rest ih =>
    obtain ⟨hpiece, hrest⟩ := List.forall_mem_cons.mp h
    exact .cons (of_chars hpiece) (ih hrest)

end Quotes

theorem plain_of_isDigit {text : String} (h : ∀ c ∈ text.toList, c.isDigit = true) :
    Plain text := by
  intro c hc
  refine ⟨?_, ?_⟩ <;> rintro rfl <;> exact absurd (h _ hc) (by decide)

theorem plain_repr (n : Nat) : Plain n.repr := by
  refine plain_of_isDigit fun c hc => ?_
  rw [Nat.toList_repr] at hc
  exact Nat.isDigit_of_mem_toDigits (by decide) (by decide) hc

theorem plain_toString_int : ∀ n : Int, Plain (toString n)
  | .ofNat n => plain_repr n
  | .negSucc n => by
    intro c hc
    rw [show toString (Int.negSucc n) = "-" ++ (n + 1).repr from rfl, String.toList_append] at hc
    rcases List.mem_append.mp hc with hc | hc
    · exact (by decide : Plain "-") c hc
    · exact plain_repr (n + 1) c hc

theorem plain_toString_bool (b : Bool) : Plain (toString b) := by
  cases b <;> decide

end Text

open Text (Quotes Plain)

/-! ### Texts of trees -/

namespace Grammar

variable {α : Type}

def Node.text? : Node α → Option String
  | .expr (.string _ text) => some text
  | _ => none

/-- The strings that occur in code, from left to right. -/
def stringsOf (nodes : List (Node α)) : List String :=
  nodes.filterMap Node.text?

@[simp] theorem stringsOf_append (first second : List (Node α)) :
    stringsOf (first ++ second) = stringsOf first ++ stringsOf second :=
  List.filterMap_append

theorem plain_name {name : String} (h : Token.Word.Proper (.ident, name)) : Plain name := by
  intro c hc
  obtain ⟨hblank, -, hother⟩ := Token.classes_of_isWordChar (h.2.1 c hc)
  refine ⟨?_, ?_⟩
  · rintro rfl
    exact hother (by decide)
  · rintro rfl
    exact absurd hblank (by decide)

theorem UnaryOp.plain_symbol (op : UnaryOp) : Plain op.symbol := by
  cases op <;> decide

theorem BinaryOp.plain_symbol (op : BinaryOp) : Plain op.symbol := by
  cases op <;> decide

theorem stringsOf_binders (parameters : List (Ident α)) :
    stringsOf (parameters.map .binder) = [] := by
  induction parameters with
  | nil => rfl
  | cons first rest ih => exact ih

/-- A function literal, or the function that it makes. -/
theorem quotes_function {parameters : List (Ident α)} {body : Block α}
    (hparameters : ∀ node ∈ parameters.map Node.binder, node.Legible)
    (hbody : Quotes body.render.toList (stringsOf body.nodes)) :
    Quotes ("fn(" ++ ", ".intercalate (parameters.map (·.name)) ++ ") " ++ body.render).toList
      (stringsOf (parameters.map .binder ++ body.nodes)) := by
  have hnames : Quotes.Each (parameters.map (·.name)) [] := by
    refine Quotes.each_of_plain fun name hname => ?_
    obtain ⟨parameter, hparameter, rfl⟩ := List.mem_map.mp hname
    exact plain_name (hparameters _ (List.mem_map_of_mem hparameter))
  have hlist := Quotes.intercalate (by decide : Plain ", ") hnames
  have hfront := (hlist.after (a := "fn(") (by decide)).append_plain (b := ") ") (by decide)
  rw [stringsOf_append, stringsOf_binders]
  exact hfront.append hbody

open List (forall_mem_append forall_mem_cons)

mutual

theorem Expr.quotes_render : ∀ expr : Expr α, (∀ node ∈ expr.nodes, node.Legible) →
    Quotes expr.render.toList (stringsOf expr.nodes)
  | .int _ value, _ => .of_chars (Text.plain_toString_int value.toInt)
  | .bool _ value, _ => .of_chars (Text.plain_toString_bool value)
  | .name _ _, h => .of_chars (plain_name (h _ List.mem_cons_self))
  | .string _ _, h => .string (h _ List.mem_cons_self)
  | .array _ elements, h => by
    have helements := quotes_renderAll elements (forall_mem_cons.mp h).2
    exact ((Quotes.intercalate (by decide) helements).after (by decide)).append_plain (by decide)
  | .map _ entries, h => by
    have hentries := quotes_renderEntries entries (forall_mem_cons.mp h).2
    exact ((Quotes.intercalate (by decide) hentries).after (by decide)).append_plain (by decide)
  | .unary _ op operand, h => by
    have hoperand := operand.quotes_render (forall_mem_cons.mp h).2
    have hfront : Quotes ("(" ++ op.symbol).toList [] :=
      (Quotes.of_chars op.plain_symbol).after (by decide)
    exact (hfront.append hoperand).append_plain (by decide)
  | .binary _ op lhs rhs, h => by
    obtain ⟨hlhs, hrhs⟩ := forall_mem_append.mp (forall_mem_cons.mp h).2
    have hfront := ((lhs.quotes_render hlhs).after (a := "(") (by decide)).append_plain
      (b := " ") (by decide)
    have hmiddle := (hfront.append_plain op.plain_symbol).append_plain (b := " ") (by decide)
    change Quotes _ (stringsOf (lhs.nodes ++ rhs.nodes))
    rw [stringsOf_append]
    exact (hmiddle.append (rhs.quotes_render hrhs)).append_plain (by decide)
  | .branch _ condition consequence alternative, h => by
    obtain ⟨h, halternative⟩ := forall_mem_append.mp (forall_mem_cons.mp h).2
    obtain ⟨hcondition, hconsequence⟩ := forall_mem_append.mp h
    have hfront :=
      ((condition.quotes_render hcondition).after (a := "if ") (by decide)).append_plain
      (b := " ") (by decide)
    have hblock := hfront.append (consequence.quotes_render hconsequence)
    change Quotes _ (stringsOf (condition.nodes ++ consequence.nodes
      ++ nodesOfAlternative alternative))
    rw [stringsOf_append, stringsOf_append]
    exact hblock.append (quotes_renderAlternative alternative halternative)
  | .function _ parameters body, h => by
    obtain ⟨hparameters, hbody⟩ := forall_mem_append.mp (forall_mem_cons.mp h).2
    exact quotes_function hparameters (body.quotes_render hbody)
  | .call _ callee arguments, h => by
    obtain ⟨hcallee, harguments⟩ := forall_mem_append.mp (forall_mem_cons.mp h).2
    have hfront := (callee.quotes_render hcallee).append_plain (b := "(") (by decide)
    have hlist := Quotes.intercalate (by decide : Plain ", ")
      (quotes_renderAll arguments harguments)
    change Quotes _ (stringsOf (callee.nodes ++ nodesOfAll arguments))
    rw [stringsOf_append]
    exact (hfront.append hlist).append_plain (by decide)
  | .index _ collection position, h => by
    obtain ⟨hcollection, hposition⟩ := forall_mem_append.mp (forall_mem_cons.mp h).2
    have hfront :=
      ((collection.quotes_render hcollection).after (a := "(") (by decide)).append_plain
      (b := "[") (by decide)
    change Quotes _ (stringsOf (collection.nodes ++ position.nodes))
    rw [stringsOf_append]
    exact (hfront.append (position.quotes_render hposition)).append_plain (by decide)

theorem quotes_renderAll : ∀ values : List (Expr α), (∀ node ∈ nodesOfAll values, node.Legible) →
    Quotes.Each (renderAll values) (stringsOf (nodesOfAll values))
  | [], _ => .nil
  | expr :: rest, h => by
    obtain ⟨hexpr, hrest⟩ := forall_mem_append.mp h
    rw [nodesOfAll, stringsOf_append]
    exact .cons (expr.quotes_render hexpr) (quotes_renderAll rest hrest)

theorem quotes_renderEntries : ∀ entries : List (Expr α × Expr α),
    (∀ node ∈ nodesOfEntries entries, node.Legible) →
    Quotes.Each (renderEntries entries) (stringsOf (nodesOfEntries entries))
  | [], _ => .nil
  | (key, value) :: rest, h => by
    obtain ⟨h, hrest⟩ := forall_mem_append.mp h
    obtain ⟨hkey, hvalue⟩ := forall_mem_append.mp h
    have hfront := (key.quotes_render hkey).append_plain (b := ": ") (by decide)
    rw [nodesOfEntries, stringsOf_append, stringsOf_append]
    exact .cons (hfront.append (value.quotes_render hvalue)) (quotes_renderEntries rest hrest)

theorem quotes_renderAlternative : ∀ alternative : Option (Block α),
    (∀ node ∈ nodesOfAlternative alternative, node.Legible) →
    Quotes (renderAlternative alternative).toList (stringsOf (nodesOfAlternative alternative))
  | none, _ => .nil
  | some block, h => (block.quotes_render h).after (by decide)

theorem Block.quotes_render : ∀ block : Block α, (∀ node ∈ block.nodes, node.Legible) →
    Quotes block.render.toList (stringsOf block.nodes)
  | .mk _ [], _ => .of_chars (by decide : Plain "\x7b \x7d")
  | .mk _ (first :: rest), h => by
    have hstmts := quotes_renderStatements (first :: rest) h
    exact ((Quotes.intercalate (by decide) hstmts).after (by decide)).append_plain (by decide)

theorem Stmt.quotes_render : ∀ stmt : Stmt α, (∀ node ∈ stmt.nodes, node.Legible) →
    Quotes stmt.render.toList (stringsOf stmt.nodes)
  | .bind _ target value, h => by
    obtain ⟨htarget, hvalue⟩ := forall_mem_cons.mp (forall_mem_cons.mp h).2
    have hname : Quotes ("let " ++ target.name).toList [] :=
      (Quotes.of_chars (plain_name htarget)).after (by decide)
    exact (hname.append_plain (b := " = ") (by decide)).append (value.quotes_render hvalue)
  | .leave _ none, _ => .of_chars (by decide : Plain "return")
  | .leave _ (some value), h =>
    (value.quotes_render (forall_mem_cons.mp h).2).after (by decide)
  | .expr _ value, h => value.quotes_render (forall_mem_cons.mp h).2
  | .block inner, h => inner.quotes_render (forall_mem_cons.mp h).2

theorem quotes_renderStatements : ∀ stmts : List (Stmt α),
    (∀ node ∈ nodesOfStatements stmts, node.Legible) →
    Quotes.Each (renderStatements stmts) (stringsOf (nodesOfStatements stmts))
  | [], _ => .nil
  | stmt :: rest, h => by
    obtain ⟨hstmt, hrest⟩ := forall_mem_append.mp h
    rw [nodesOfStatements, stringsOf_append]
    exact .cons (stmt.quotes_render hstmt) (quotes_renderStatements rest hrest)

end

end Grammar

/-! ### Texts of values -/

def Closure.nodes {α : Type} (closure : Closure α) : List (Grammar.Node α) :=
  closure.parameters.map .binder ++ closure.body.nodes

theorem Closure.quotes_render {α : Type} {closure : Closure α}
    (h : ∀ node ∈ closure.nodes, node.Legible) :
    Quotes closure.render.toList (Grammar.stringsOf closure.nodes) := by
  obtain ⟨hparameters, hbody⟩ := List.forall_mem_append.mp h
  exact Grammar.quotes_function hparameters (closure.body.quotes_render hbody)

namespace Value

def Key.strings : Key → List String
  | string text => [text]
  | int _ | bool _ => []

section Strings

variable (function : Nat → List String)

mutual

/-- The strings that occur in a value, and in the functions in it, in the order of its text. -/
def strings : Value → List String
  | .string text => [text]
  | .array elements => stringsOfElements elements
  | .map entries => stringsOfEntries entries
  | .function reference => function reference
  | .int _ | .bool _ | .builtin _ | .null => []

def stringsOfElements : List Value → List String
  | [] => []
  | value :: rest => value.strings ++ stringsOfElements rest

def stringsOfEntries : List (Key × Value) → List String
  | [] => []
  | (key, value) :: rest => key.strings ++ value.strings ++ stringsOfEntries rest

end

end Strings

/-- No string in the value has a quote in it, at any depth. -/
def QuoteFree (value : Value) : Prop :=
  value.MadeOf ('"' ∉ ·.toList) fun _ => True

theorem Key.quotes_render {key : Key} (h : key.MadeOf ('"' ∉ ·.toList)) :
    Quotes key.render.toList key.strings := by
  cases key with
  | int n => exact .of_chars (Text.plain_toString_int n.toInt)
  | bool b => exact .of_chars (Text.plain_toString_bool b)
  | string text => exact .string h

section Quotes

variable {function : Nat → String} {texts : Nat → List String}

mutual

theorem quotes_renderAs
    (hfunction : ∀ reference, Quotes (function reference).toList (texts reference)) :
    ∀ value : Value, value.QuoteFree →
    Quotes (value.renderAs function false).toList (value.strings texts)
  | .int n, _ => .of_chars (Text.plain_toString_int n.toInt)
  | .bool b, _ => .of_chars (Text.plain_toString_bool b)
  | .string _, .string h => .string h
  | .array elements, .array h => by
    have helements := quotes_renderElements hfunction elements h
    exact ((Quotes.intercalate (by decide) helements).after (by decide)).append_plain (by decide)
  | .map entries, .map hkeys hvalues => by
    have hentries := quotes_renderEntries hfunction entries hkeys hvalues
    exact ((Quotes.intercalate (by decide) hentries).after (by decide)).append_plain (by decide)
  | .function reference, _ => hfunction reference
  | .builtin _, _ => .of_chars (by decide : Plain "builtin function")
  | .null, _ => .of_chars (by decide : Plain "null")

theorem quotes_renderElements
    (hfunction : ∀ reference, Quotes (function reference).toList (texts reference)) :
    ∀ elements : List Value, (∀ value ∈ elements, value.QuoteFree) →
    Quotes.Each (renderElements function elements) (stringsOfElements texts elements)
  | [], _ => .nil
  | value :: rest, h => by
    obtain ⟨hvalue, hrest⟩ := List.forall_mem_cons.mp h
    exact .cons (quotes_renderAs hfunction value hvalue)
      (quotes_renderElements hfunction rest hrest)

theorem quotes_renderEntries
    (hfunction : ∀ reference, Quotes (function reference).toList (texts reference)) :
    ∀ entries : List (Key × Value),
    (∀ entry ∈ entries, entry.1.MadeOf ('"' ∉ ·.toList)) →
    (∀ entry ∈ entries, entry.2.QuoteFree) →
    Quotes.Each (renderEntries function entries) (stringsOfEntries texts entries)
  | [], _, _ => .nil
  | (key, value) :: rest, hkeys, hvalues => by
    obtain ⟨hkey, hkeys⟩ := List.forall_mem_cons.mp hkeys
    obtain ⟨hvalue, hvalues⟩ := List.forall_mem_cons.mp hvalues
    have hfront := (Key.quotes_render hkey).append_plain (b := ": ") (by decide)
    exact .cons (hfront.append (quotes_renderAs hfunction value hvalue))
      (quotes_renderEntries hfunction rest hkeys hvalues)

end

end Quotes

end Value

end Scriptlet
