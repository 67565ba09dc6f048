import Scriptlet.Proofs.Effect
import Scriptlet.Proofs.ReadBack

/-! # The text of data is a program

Data is what is made of integers, booleans and strings by way of arrays and maps. Its text is read
as literals, and these evaluate to the data again. There is no way to write a quote within a string,
and the least integer has no literal, not even behind a sign.
-/

namespace Scriptlet

namespace Entries

variable {κ β : Type} [Ord κ]

/-- A key beyond all others goes to the end. -/
theorem insert_of_gt {key : κ} (value : β) {entries : List (κ × β)}
    (h : ∀ entry ∈ entries, compare key entry.1 = .gt) :
    insert key value entries = entries ++ [(key, value)] := by
  induction entries with
  | nil => rfl
  | cons entry rest ih =>
    obtain ⟨hentry, hrest⟩ := List.forall_mem_cons.mp h
    simp only [insert, hentry, ih hrest, List.cons_append]

end Entries

namespace Value

namespace Key

def Data : Key → Prop
  | int n => n ≠ Int64.minValue
  | bool _ => True
  | string text => '"' ∉ text.toList

/-- The value that has this key. -/
def value : Key → Value
  | int n => .int n
  | bool b => .bool b
  | string text => .string text

theorem toKey_value (key : Key) : key.value.toKey = .ok key := by
  cases key <;> rfl

end Key

inductive Data : Value → Prop
  | int {n : Int64} : n ≠ Int64.minValue → Data (int n)
  | bool (b : Bool) : Data (bool b)
  | string {text : String} : '"' ∉ text.toList → Data (string text)
  | array {elements : List Value} : (∀ element ∈ elements, Data element) → Data (array elements)
  | map {entries : List (Key × Value)} : Entries.Ascending entries →
      (∀ entry ∈ entries, entry.1.Data) → (∀ entry ∈ entries, Data entry.2) → Data (map entries)

theorem renderElements_eq_map (function : Nat → String) (elements : List Value) :
    renderElements function elements = elements.map (renderAs function false) := by
  induction elements with
  | nil => rfl
  | cons first rest ih => rw [renderElements, ih, List.map_cons]

theorem renderEntries_eq_map (function : Nat → String) (entries : List (Key × Value)) :
    renderEntries function entries
      = entries.map fun entry => entry.1.render ++ ": " ++ entry.2.renderAs function false := by
  induction entries with
  | nil => rfl
  | cons first rest ih => rw [renderEntries, ih, List.map_cons]

end Value

open Grammar

/-! ### Evaluation of literals -/

/-- Wherever the expression is evaluated, it has this value and leaves everything as it is. -/
def Value.Denoted (value : Value) (expr : Expr Token) : Prop :=
  ∀ call frame store, expr.eval call frame store = some (.ok value, store)

namespace Value

theorem denoted_negate {n : Int64} {label : Token} {operand : Expr Token}
    (h : (int (-n)).Denoted operand) : (int n).Denoted (.unary label .negate operand) := by
  intro call frame store
  rw [Expr.eval, Run.bind_of_ok (h call frame store)]
  simp only [unary, Int64.neg_neg]
  rfl

theorem evalAll_of_denoted {elements : List Value} {exprs : List (Expr Token)}
    (h : List.Forall₂ Denoted elements exprs) (call : Token → Value → List Value → Run Token Value)
    (frame : Nat) (store : Store Token) :
    evalAll call frame exprs store = some (.ok elements, store) := by
  induction h with
  | nil => rfl
  | cons hfirst _ ih =>
    rw [evalAll, Run.bind_of_ok (hfirst call frame store), Run.bind_of_ok ih]
    rfl

theorem denoted_array {label : Token} {elements : List Value} {exprs : List (Expr Token)}
    (h : List.Forall₂ Denoted elements exprs) : (array elements).Denoted (.array label exprs) := by
  intro call frame store
  rw [Expr.eval, Run.bind_of_ok (evalAll_of_denoted h call frame store)]
  rfl

theorem evalEntries_of_denoted {entries : List (Key × Value)}
    {exprs : List (Expr Token × Expr Token)}
    (h : List.Forall₂ (fun entry pair => entry.1.value.Denoted pair.1 ∧ entry.2.Denoted pair.2)
      entries exprs)
    (call : Token → Value → List Value → Run Token Value) (frame : Nat) (store : Store Token) :
    ∀ known : List (Key × Value), Entries.Ascending (known ++ entries) →
      evalEntries call frame known exprs store = some (.ok (known ++ entries), store) := by
  induction h with
  | nil =>
    intro known _
    rw [List.append_nil]
    rfl
  | @cons entry pair entries exprs hfirst _ ih =>
    intro known hascending
    obtain ⟨hkey, hvalue⟩ := hfirst
    have hlast : Entries.insert entry.1 entry.2 known = known ++ [entry] := by
      refine Entries.insert_of_gt entry.2 fun other hother => ?_
      have hlt := (List.pairwise_append.mp hascending).2.2 other hother entry List.mem_cons_self
      exact Std.OrientedCmp.gt_iff_lt.mpr hlt
    rw [evalEntries, Run.bind_of_ok (hkey call frame store), Key.toKey_value]
    rw [Run.bind_of_ok (show Run.ofExcept pair.1.label (.ok entry.1) store = _ from rfl)]
    rw [Run.bind_of_ok (hvalue call frame store), hlast]
    rw [List.append_cons known entry entries] at hascending ⊢
    exact ih (known ++ [entry]) hascending

theorem denoted_map {label : Token} {entries : List (Key × Value)}
    {exprs : List (Expr Token × Expr Token)} (hascending : Entries.Ascending entries)
    (h : List.Forall₂ (fun entry pair => entry.1.value.Denoted pair.1 ∧ entry.2.Denoted pair.2)
      entries exprs) : (map entries).Denoted (.map label exprs) := by
  intro call frame store
  rw [Expr.eval, Run.bind_of_ok (evalEntries_of_denoted h call frame store [] hascending)]
  rfl

end Value

/-! ### Texts of literals -/

open Token (Spells Word)

namespace Grammar

/-- The text is read, in front of what an expression can end in front of, as something that has the
property. -/
def Spelt {β : Type} (gives : Cursor → β → Cursor → Prop) (P : β → Prop) (text : String) : Prop :=
  ∃ ws, Spells text.toList ws ∧ LeadsExpr ws ∧ Recognizes gives enders ws P

theorem Spelt.imp {β : Type} {gives : Cursor → β → Cursor → Prop} {P Q : β → Prop} {text : String}
    (h : Spelt gives P text) (himp : ∀ value, P value → Q value) : Spelt gives Q text := by
  obtain ⟨ws, hspells, hleads, hrecognizes⟩ := h
  exact ⟨ws, hspells, hleads, hrecognizes.imp himp⟩

section Lists

variable {β γ : Type} {item : ∀ n, Reader n β} {like : γ → β → Prop} {texts : List String}
  {xs : List γ}

theorem exists_spellings {gives : Cursor → β → Cursor → Prop}
    (h : List.Forall₂ (fun text x => Spelt gives (like x) text) texts xs) :
    ∃ wss, List.Forall₂ (fun text ws => Spells text.toList ws) texts wss ∧
      (∀ ws ∈ wss, LeadsExpr ws) ∧
      List.Forall₂ (fun ws x => Recognizes gives enders ws (like x)) wss xs := by
  induction h with
  | nil => exact ⟨[], .nil, nofun, .nil⟩
  | cons hfirst _ ih =>
    obtain ⟨ws, hspells, hleads, hrecognizes⟩ := hfirst
    obtain ⟨wss, hspells', hleads', hrecognizes'⟩ := ih
    exact ⟨ws :: wss, .cons hspells hspells', List.forall_mem_cons.mpr ⟨hleads, hleads'⟩,
      .cons hrecognizes hrecognizes'⟩

/-- The text of a list, from behind the opening delimiter on. -/
theorem exists_spelling_list {closing : Token.Kind} (c : Char)
    (hc : Token.Kind.ofMark? c = some closing) (hclosing : closing ∈ closers)
    (h : List.Forall₂ (fun text x => Spelt (Yields item) (like x) text) texts xs) :
    ∃ ws, Spells ((", ".intercalate texts).toList ++ [c]) ws ∧
      ∀ follow, Recognizes (Yields fun n => Cursor.list (item n) closing) follow ws
        (List.Forall₂ like xs) := by
  obtain ⟨wss, hspells, hleads, hrecognizes⟩ := exists_spellings h
  have hitem : ∀ ws ∈ wss, LeadsItem closing ws := fun ws hws =>
    List.append_nil ws ▸ (hleads ws hws).leadsItem hclosing []
  refine ⟨Token.Kind.comma.separated wss ++ [closing.word], ?_,
    recognizes_list closing hclosing hrecognizes hitem⟩
  rw [String.toList_intercalate]
  exact (Spells.separated rfl hspells).append_mark hc .nil

end Lists

end Grammar

namespace Value

theorem toInt_neg_of_ne_minValue {n : Int64} (h : n ≠ Int64.minValue) :
    (-n).toInt = -n.toInt := by
  have hlt := n.toInt_lt
  have hle := n.le_toInt
  have hne : n.toInt ≠ -2 ^ 63 := fun heq => h (Int64.toInt_inj.mp (heq.trans rfl))
  rw [Int64.toInt_neg]
  apply Int.bmod_eq_of_le <;> omega

/-- A negative integer is written with a sign. -/
theorem toList_toString_of_neg {i : Int} (h : i < 0) :
    (toString i).toList = '-' :: (toString (-i)).toList := by
  have hneg : ¬0 ≤ i := by omega
  have hpos : 0 ≤ -i := by omega
  rw [Int.toString_eq_repr, Int.toString_eq_repr, Int.repr_eq_if, Int.repr_eq_if, if_neg hneg,
    if_pos hpos, String.toList_append]
  rfl

theorem spelt_int {n : Int64} (h : n ≠ Int64.minValue) :
    Spelt YieldsExpr (int n).Denoted (toString n.toInt) := by
  by_cases hn : 0 ≤ n.toInt
  · refine ⟨_, Spells.word (proper_toString hn), leadsExpr_cons (by decide), ?_⟩
    refine (recognizes_int (integer?_toString hn)).whole.imp ?_
    rintro _ ⟨_, rfl⟩ call frame store
    rfl
  · have hneg := toInt_neg_of_ne_minValue h
    have hpos : 0 ≤ (-n).toInt := by omega
    have hdigits := Spells.word (proper_toString hpos)
    refine ⟨UnaryOp.negate.kind.word :: [(.int, toString (-n).toInt)], ?_,
      leadsExpr_cons (by decide), ?_⟩
    · rw [toList_toString_of_neg (by omega), ← hneg]
      exact .mark rfl hdigits
    · refine (recognizes_unary (recognizes_int (integer?_toString hpos))).imp ?_
      rintro _ ⟨_, _, rfl, _, rfl⟩
      exact denoted_negate fun call frame store => rfl

theorem spelt_bool (b : Bool) : Spelt YieldsExpr (bool b).Denoted (toString b) := by
  refine ⟨[(boolKind b).word], by cases b <;> exact Spells.fixed rfl,
    leadsExpr_cons (by cases b <;> decide), ?_⟩
  refine (recognizes_bool b).whole.imp ?_
  rintro _ ⟨_, rfl⟩ call frame store
  rfl

theorem spelt_string {text : String} (h : '"' ∉ text.toList) :
    Spelt YieldsExpr (string text).Denoted ("\"" ++ text ++ "\"") := by
  have hword : Word.Proper (.string, text) := h
  refine ⟨[(.string, text)], by simpa [Word.chars] using Spells.word hword,
    leadsExpr_cons (by decide), ?_⟩
  refine (recognizes_string text).whole.imp ?_
  rintro _ ⟨_, rfl⟩ call frame store
  rfl

theorem spelt_key {key : Key} (h : key.Data) : Spelt YieldsExpr key.value.Denoted key.render := by
  cases key with
  | int n => exact spelt_int h
  | bool b => exact spelt_bool b
  | string text => exact spelt_string h

theorem spelt_entry {key : Key} {value : Value} {text : String} (hkey : key.Data)
    (hvalue : Spelt YieldsExpr value.Denoted text) :
    Spelt (Yields fun n => Cursor.entry (above n 0))
      (fun pair => key.value.Denoted pair.1 ∧ value.Denoted pair.2)
      (key.render ++ ": " ++ text) := by
  obtain ⟨ws, hspells, ⟨first, tail, rfl, hfirst⟩, hrecognizes⟩ := spelt_key hkey
  obtain ⟨xs, hspells', -, hrecognizes'⟩ := hvalue
  refine ⟨_, ?_, ⟨first, _, rfl, hfirst⟩, recognizes_entry hrecognizes hrecognizes'⟩
  simp only [String.toList_append, String.reduceToList, List.append_assoc, List.cons_append,
    List.nil_append]
  exact hspells.append_mark rfl hspells'.space

/-- The text of data, as it stands within an array, is the text of literals for it. -/
theorem Data.spelt {value : Value} (h : value.Data) (function : Nat → String) :
    Spelt YieldsExpr value.Denoted (value.renderAs function false) := by
  induction h with
  | int hn => exact spelt_int hn
  | bool b => exact spelt_bool b
  | string htext => exact spelt_string htext
  | @array elements _ ih =>
    have hall : List.Forall₂ (fun text element => Spelt YieldsExpr (Denoted element) text)
        (renderElements function elements) elements := by
      rw [renderElements_eq_map, List.forall₂_map_left_iff, List.forall₂_same]
      exact ih
    obtain ⟨ws, hspells, hrecognizes⟩ := exists_spelling_list ']' rfl (by decide) hall
    refine ⟨Token.Kind.leftBracket.word :: ws, ?_, leadsExpr_cons (by decide), ?_⟩
    · simp only [renderAs, String.toList_append, String.reduceToList, List.cons_append,
        List.nil_append]
      exact .mark rfl hspells
    · refine (recognizes_array (hrecognizes followers)).whole.imp ?_
      rintro _ ⟨_, _, rfl, hdenoted⟩
      exact denoted_array hdenoted
  | @map entries hascending hkeys _ ih =>
    have hall : List.Forall₂
        (fun text entry => Spelt (Yields fun n => Cursor.entry (above n 0))
          (fun pair => entry.1.value.Denoted pair.1 ∧ entry.2.Denoted pair.2) text)
        (renderEntries function entries) entries := by
      rw [renderEntries_eq_map, List.forall₂_map_left_iff, List.forall₂_same]
      exact fun entry hentry => spelt_entry (hkeys entry hentry) (ih entry hentry)
    obtain ⟨ws, hspells, hrecognizes⟩ := exists_spelling_list '}' rfl (by decide) hall
    refine ⟨Token.Kind.leftBrace.word :: ws, ?_, leadsExpr_cons (by decide), ?_⟩
    · simp only [renderAs, String.toList_append, String.reduceToList, List.cons_append,
        List.nil_append]
      exact .mark rfl hspells
    · refine (recognizes_map (hrecognizes followers)).whole.imp ?_
      rintro _ ⟨_, _, rfl, hdenoted⟩
      exact denoted_map hascending hdenoted

end Value

/-! ### Programs of one expression -/

namespace Grammar

theorem ofSource_of_spelt {P : Expr Token → Prop} {text : String} (h : Spelt YieldsExpr P text) :
    ∃ token expr, Program.ofSource text = ⟨[.expr token expr], []⟩ ∧ P expr := by
  obtain ⟨ws, hspells, hleads, hrecognizes⟩ := h
  have hwords : (Cursor.ofSource text).words = ws ++ [(.eof, "")] := by
    have hwords := hspells [] .nil
    rwa [List.append_nil, Token.words_of_blank (List.forall_mem_nil _)] at hwords
  obtain ⟨expr, t, hyields, ht, hexpr⟩ := hrecognizes _ (.eof, "") [] hwords (by decide)
  obtain ⟨kind, hkind, token, u, htakes⟩ := hleads.takes hwords
  obtain ⟨eof, v, heof, -, -⟩ := Cursor.takes_of_words ht
  have hkinds : ∀ kind ∈ starters, kind ≠ .eof ∧ kind ≠ .letWord ∧ kind ≠ .returnWord := by decide
  obtain ⟨hneEof, hlet, hreturn⟩ := hkinds kind hkind
  obtain ⟨shorter, hstmt⟩ : (Cursor.ofSource text).topStatement.Gives (.expr token expr) t := by
    have hstmt := yields_expr htakes hlet hreturn hyields.gives _ (Nat.lt_succ_self _)
    rwa [skip_of_takes_other heof (by decide)] at hstmt
  have hstart : ¬(Cursor.ofSource text).atEnd = true := by
    simp [Cursor.atEnd, Cursor.kind?, Cursor.peek?_of_next? htakes.next?_eq, htakes.kind_eq, hneEof]
  have hend : t.atEnd = true := by
    simp [Cursor.atEnd, Cursor.kind?, Cursor.peek?_of_next? heof.next?_eq, heof.kind_eq]
  refine ⟨token, expr, ?_, hexpr⟩
  rw [Program.ofSource, program_of_ok hstart hstmt, program_of_atEnd hend]

/-- An array with the data for its only element, written out, is a program without errors. It gives
an equal array, wherever it is run and whatever the text of functions is, and changes nothing. -/
theorem run_ofSource_renderAs {value : Value} (h : value.Data) (function : Nat → String)
    (limit frame : Nat) (store : Store Token) :
    let program := Program.ofSource ((Value.array [value]).renderAs function true)
    program.errors = [] ∧ ∃ result, program.run limit frame store = some (.ok result, store) ∧
      result.isEqual (.array [value]) = true := by
  intro program
  have harray : (Value.array [value]).Data := .array (List.forall_mem_singleton.mpr h)
  obtain ⟨token, expr, hprogram, hdenoted⟩ := ofSource_of_spelt (harray.spelt function)
  have hprogram : program = ⟨[.expr token expr], []⟩ := hprogram
  rw [hprogram]
  refine ⟨rfl, .array [value], ?_, (Value.isEqual_iff _ _).mpr rfl⟩
  have heval : evalStatements (Run.call limit) frame .null [.expr token expr] store
      = some (.ok (.array [value]), store) := by
    rw [evalStatements, Stmt.eval, Run.bind_of_ok (hdenoted (Run.call limit) frame store)]
    rfl
  rw [Program.run_of_errors_eq_nil rfl, heval]
  rfl

/-- A negative key, a string with other characters than letters, and arrays within a map. -/
theorem run_ofSource_renderAs_nested :
    let value : Value :=
      .map [(.int (-2), .array [.bool true, .array []]), (.string "k", .string "ä;")]
    let program := Program.ofSource ((Value.array [value]).renderAs (fun _ => "") true)
    value.Data ∧ program.errors = [] ∧
      ∃ result, program.run 0 Store.globalFrame Store.initial = some (.ok result, Store.initial) ∧
        result.isEqual (.array [value]) = true := by
  intro value program
  have hdata : value.Data := by
    refine .map ?_ ?_ ?_
    · exact List.pairwise_pair.mpr rfl
    · exact List.forall_mem_cons.mpr
        ⟨(by decide : (-2 : Int64) ≠ Int64.minValue), List.forall_mem_singleton.mpr
          (by decide : '"' ∉ "k".toList)⟩
    · refine List.forall_mem_cons.mpr
        ⟨.array (List.forall_mem_cons.mpr ⟨.bool true, List.forall_mem_singleton.mpr ?_⟩),
          List.forall_mem_singleton.mpr (.string (by decide))⟩
      exact .array nofun
  exact ⟨hdata, run_ofSource_renderAs hdata (fun _ => "") 0 Store.globalFrame Store.initial⟩

end Grammar

end Scriptlet
