import Scriptlet.Proofs.Compose
import Scriptlet.Proofs.Mirror

/-! # Sessions

In a session one text after another is run in the global frame, and what a text binds is there for
the texts after it. Texts that are cut apart at semicolons run in a session as they do in one piece,
and texts that are no programs leave no trace.
-/

namespace Scriptlet.Grammar

/-- What came of one text of a session: its answer, and the store behind it. -/
structure Step where
  source : String
  answer : Except Failure Value
  store : Store Token

/-- The steps of a session. There are none if one of the texts runs without end. -/
def session (limit : Nat) : Store Token → List String → Option (List Step)
  | _, [] => some []
  | store, source :: rest => do
    let (answer, after) ← (Program.ofSource source).run limit Store.globalFrame store
    let steps ← session limit after rest
    return ⟨source, answer, after⟩ :: steps

def lastStep (limit : Nat) (store : Store Token) (texts : List String) : Option Step :=
  (session limit store texts).bind List.getLast?

/-- Whether the text is a program without errors. -/
def parses (source : String) : Bool :=
  (Program.ofSource source).errors.isEmpty

/-- The last token of the text is a semicolon outside all braces. -/
def EndsStatement (source : String) : Prop :=
  ∃ before semicolon eof, Token.stream source = before ++ [semicolon, eof] ∧
    semicolon.kind = .semicolon ∧ braceDepth 0 before = 0

/-- Run one after the other, the texts all end with a value, not in a fault nor by a `return`. -/
def Completes (limit : Nat) : Store Token → List String → Prop
  | _, [] => True
  | store, source :: rest => ∃ value after,
    evalStatements (Run.call limit) Store.globalFrame .null (Program.ofSource source).statements
      store = some (.ok value, after) ∧ Completes limit after rest

instance decidableCompletes (limit : Nat) : ∀ (store : Store Token) (texts : List String),
    Decidable (Completes limit store texts)
  | _, [] => .isTrue trivial
  | store, source :: rest =>
    match h : evalStatements (Run.call limit) Store.globalFrame .null
        (Program.ofSource source).statements store with
    | some (.ok value, after) =>
      haveI := decidableCompletes limit after rest
      decidable_of_iff (Completes limit after rest)
        ⟨fun hrest => ⟨value, after, h, hrest⟩, fun ⟨_, _, h', hrest⟩ => by
          cases h.symm.trans h'
          exact hrest⟩
    | some (.error _, _) => .isFalse fun ⟨_, _, h', _⟩ => by cases h.symm.trans h'
    | none => .isFalse fun ⟨_, _, h', _⟩ => by cases h.symm.trans h'

/-- The answer and the store without anything that tells where code stands. -/
def Step.bare (step : Step) : Except Fault Value × Store Unit :=
  (step.answer.mapError (·.fault), step.store.relabel fun _ => ())

theorem session_cons (limit : Nat) (store : Store Token) (source : String) (rest : List String) :
    session limit store (source :: rest)
      = ((Program.ofSource source).run limit Store.globalFrame store).bind fun (answer, after) =>
          (session limit after rest).map (⟨source, answer, after⟩ :: ·) := by
  rw [session]
  cases (Program.ofSource source).run limit Store.globalFrame store with
  | none => rfl
  | some ending => cases h : session limit ending.2 rest <;> simp [h]

theorem source_of_session {limit : Nat} {texts : List String} : ∀ {store : Store Token}
    {steps : List Step}, session limit store texts = some steps → steps.map (·.source) = texts := by
  induction texts with
  | nil =>
    intro store steps h
    cases h
    rfl
  | cons source rest ih =>
    intro store steps h
    rw [session_cons, Option.bind_eq_some_iff] at h
    obtain ⟨⟨answer, after⟩, -, h⟩ := h
    obtain ⟨steps', hsteps', rfl⟩ := Option.map_eq_some_iff.mp h
    rw [List.map_cons, ih hsteps']

/-! ### Texts that are no programs -/

theorem run_of_errors {program : Program Token} (h : program.errors ≠ []) (limit frame : Nat)
    (store : Store Token) :
    ∃ failure, program.run limit frame store = some (.error failure, store) := by
  obtain ⟨first, rest, herrors⟩ := List.exists_cons_of_ne_nil h
  exact ⟨_, by rw [Program.run, herrors]⟩

/-- The steps of the programs are what they are without the other texts. -/
theorem session_filter (limit : Nat) (texts : List String) : ∀ store : Store Token,
    (session limit store texts).map (List.filter (parses ·.source))
      = session limit store (texts.filter parses) := by
  induction texts with
  | nil => exact fun _ => rfl
  | cons source rest ih =>
    intro store
    rw [session_cons]
    by_cases h : parses source = true
    · rw [List.filter_cons_of_pos h, session_cons]
      cases (Program.ofSource source).run limit Store.globalFrame store with
      | none => rfl
      | some ending =>
        obtain ⟨answer, after⟩ := ending
        simp only [Option.bind_some]
        rw [← ih after, Option.map_map, Option.map_map]
        congr 1
        funext steps
        exact List.filter_cons_of_pos h
    · have herrors : (Program.ofSource source).errors ≠ [] := by simpa [parses] using h
      obtain ⟨failure, hrun⟩ := run_of_errors herrors limit Store.globalFrame store
      rw [List.filter_cons_of_neg h, hrun, Option.bind_some, ← ih, Option.map_map]
      congr 1
      funext steps
      exact List.filter_cons_of_neg h

/-! ### Texts in one piece -/

/-- The code without its labels. -/
def bareStatements (source : String) : List (Stmt Unit) :=
  relabelStatements (fun _ => ()) (Program.ofSource source).statements

theorem relabelStatements_append {α β : Type} (f : α → β) (first second : List (Stmt α)) :
    relabelStatements f (first ++ second)
      = relabelStatements f first ++ relabelStatements f second := by
  simp only [relabelStatements_eq_map, List.map_append]

/-- A text of pieces that end in semicolons has the code of the pieces, one behind the other. -/
theorem ofSource_join {pieces : List String}
    (h : ∀ piece ∈ pieces, (Program.ofSource piece).errors = [] ∧ EndsStatement piece) :
    (Program.ofSource (String.join pieces)).errors = [] ∧
      bareStatements (String.join pieces) = pieces.flatMap bareStatements := by
  induction pieces with
  | nil =>
    have hempty : Program.ofSource "" = ⟨[], []⟩ := by
      rw [Program.ofSource, program_of_atEnd (by decide +kernel)]
    refine ⟨congrArg Program.errors hempty, ?_⟩
    rw [bareStatements, String.join_nil, hempty]
    rfl
  | cons piece rest ih =>
    obtain ⟨⟨herrors, before, semicolon, eof, hstream, hkind, hdepth⟩, hrest⟩ :=
      List.forall_mem_cons.mp h
    obtain ⟨ihErrors, ihStatements⟩ := ih hrest
    have happend := ofSource_append piece (String.join rest) hstream hkind hdepth
    rw [String.join_cons, List.flatMap_cons]
    constructor
    · rw [happend]
      exact List.append_eq_nil_iff.mpr ⟨herrors, List.map_eq_nil_iff.mpr ihErrors⟩
    · rw [bareStatements, happend, ← ihStatements]
      refine (relabelStatements_append _ _ _).trans (congrArg (_ ++ ·) ?_)
      rw [Program.mapSpans, ← relabelStatements_eq_map, relabelStatements_relabelStatements]
      rfl

/-- A program that ends in a semicolon is not empty. -/
theorem bareStatements_ne_nil {source : String} (herrors : (Program.ofSource source).errors = [])
    (h : EndsStatement source) : bareStatements source ≠ [] := by
  obtain ⟨before, semicolon, eof, hstream, hkind, hdepth⟩ := h
  have hends : Token.stream source = (before ++ [semicolon]) ++ [eof] := by
    rw [hstream, List.append_assoc, List.singleton_append]
  have hne := (Token.kind_of_stream_eq hends).2
  have hshares : SharesUpTo [eof] [eof] (Cursor.ofSource source) (Cursor.ofSource source) :=
    ⟨before, semicolon, hstream, hstream, hkind,
      fun token htoken => hne token (List.mem_append_left _ htoken), rfl, hdepth⟩
  have hstart := hshares.not_atEnd
  rw [Program.ofSource] at herrors
  rw [bareStatements, Program.ofSource]
  cases hfirst : (Cursor.ofSource source).topStatement with
  | ok first t shorter =>
    rw [program_of_ok hstart hfirst]
    exact List.cons_ne_nil _ _
  | fail error t within =>
    rw [program_of_fail hstart hfirst] at herrors
    cases herrors

theorem evalStatements_append {α : Type} (call : α → Value → List Value → Run α Value)
    (frame : Nat) (first second : List (Stmt α)) : ∀ last : Value,
    evalStatements call frame last (first ++ second)
      = evalStatements call frame last first >>= fun value =>
          evalStatements call frame value second := by
  induction first with
  | nil =>
    intro last
    have hnil : evalStatements call frame last [] = pure last := rfl
    rw [List.nil_append, hnil, pure_bind]
  | cons stmt rest ih =>
    intro last
    rw [List.cons_append, evalStatements, evalStatements, bind_assoc]
    exact bind_congr ih

theorem evalStatements_of_ne_nil {α : Type} {stmts : List (Stmt α)} (h : stmts ≠ [])
    (call : α → Value → List Value → Run α Value) (frame : Nat) (last last' : Value) :
    evalStatements call frame last stmts = evalStatements call frame last' stmts := by
  obtain ⟨stmt, rest, rfl⟩ := List.exists_cons_of_ne_nil h
  rfl

/-- How a run ends that nothing encloses. -/
def answer {α : Type} : Except (Interrupt α) Value → Except Fault Value
  | .ok value | .error (.returned value) => .ok value
  | .error (.failed fault _) => .error fault

/-- The run of code without labels. -/
def runBare (limit : Nat) (last : Value) (stmts : List (Stmt Unit)) (store : Store Unit) :
    Option (Except Fault Value × Store Unit) :=
  (evalStatements (Run.call limit) Store.globalFrame last stmts store).map
    fun (result, after) => (answer result, after)

theorem lastStep_singleton {limit : Nat} {source : String}
    (h : (Program.ofSource source).errors = []) (store : Store Token) :
    (lastStep limit store [source]).map Step.bare
      = runBare limit .null (bareStatements source) (store.relabel fun _ => ()) := by
  have hmirrors := mirrors_evalStatements (mirrors_call (fun _ : Token => ()) limit)
    Store.globalFrame (Program.ofSource source).statements .null store
  rw [runBare, bareStatements, hmirrors, lastStep, session_cons, Program.run_of_errors_eq_nil h]
  cases evalStatements (Run.call limit) Store.globalFrame .null (Program.ofSource source).statements
    store with
  | none => rfl
  | some ending =>
    obtain ⟨result, after⟩ := ending
    rcases result with (_ | _) | _ <;> rfl

theorem lastStep_cons {limit : Nat} {store after : Store Token} {source : String}
    {answer : Except Failure Value} {rest : List String} (hne : rest ≠ [])
    (h : (Program.ofSource source).run limit Store.globalFrame store = some (answer, after)) :
    lastStep limit store (source :: rest) = lastStep limit after rest := by
  rw [lastStep, lastStep, session_cons, h]
  simp only [Option.bind_some]
  cases hsteps : session limit after rest with
  | none => rfl
  | some steps =>
    have hsteps : steps ≠ [] := by
      rintro rfl
      exact hne (source_of_session hsteps).symm
    exact List.getLast?_cons_of_ne_nil hsteps

/-- Texts that end with a value leave a store from which the last text runs as it does within them
all. -/
theorem lastStep_append {limit : Nat} {last : String} (hlast : bareStatements last ≠ [])
    {pieces : List String}
    (hpieces : ∀ piece ∈ pieces, (Program.ofSource piece).errors = [] ∧ EndsStatement piece) :
    ∀ store, Completes limit store pieces →
      ∃ before, lastStep limit store (pieces ++ [last]) = lastStep limit before [last] ∧
        ∀ value, runBare limit value (pieces.flatMap bareStatements ++ bareStatements last)
            (store.relabel fun _ => ())
          = runBare limit .null (bareStatements last) (before.relabel fun _ => ()) := by
  induction pieces with
  | nil =>
    intro store _
    refine ⟨store, rfl, fun value => ?_⟩
    rw [List.flatMap_nil, List.nil_append, runBare, runBare, evalStatements_of_ne_nil hlast]
  | cons piece rest ih =>
    rintro store ⟨value, after, heval, hrest⟩
    obtain ⟨⟨herrors, hends⟩, hpieces⟩ := List.forall_mem_cons.mp hpieces
    obtain ⟨before, hlastStep, hrun⟩ := ih hpieces after hrest
    refine ⟨before, ?_, fun earlier => ?_⟩
    · have hpiece : (Program.ofSource piece).run limit Store.globalFrame store
          = some (.ok value, after) := by
        rw [Program.run_of_errors_eq_nil herrors, heval]
        rfl
      rw [List.cons_append, lastStep_cons (List.append_ne_nil_of_right_ne_nil _ (by simp)) hpiece,
        hlastStep]
    · have hne := bareStatements_ne_nil herrors hends
      have hbare : evalStatements (Run.call limit) Store.globalFrame .null (bareStatements piece)
          (store.relabel fun _ => ()) = some (.ok value, after.relabel fun _ => ()) := by
        have hmirrors := mirrors_evalStatements (mirrors_call (fun _ : Token => ()) limit)
          Store.globalFrame (Program.ofSource piece).statements .null store
        rw [bareStatements, hmirrors, heval]
        rfl
      rw [← hrun value, runBare, runBare, List.flatMap_cons, List.append_assoc,
        evalStatements_append, evalStatements_of_ne_nil hne _ _ earlier .null, Run.bind_of_ok hbare]

/-- A session of programs that end in semicolons, of which all but the last end with a value, comes
to the same answer, output and bindings as all of them in one piece, up to where function literals
stand. Texts that are no programs may come between them and change none of their steps. -/
theorem session_join (limit : Nat) {pieces : List String} {last : String}
    (hpieces : ∀ piece ∈ pieces ++ [last],
      (Program.ofSource piece).errors = [] ∧ EndsStatement piece)
    (hcompletes : Completes limit .initial pieces) :
    (lastStep limit .initial (pieces ++ [last])).map Step.bare
        = (lastStep limit .initial [String.join (pieces ++ [last])]).map Step.bare ∧
      ∀ texts, texts.filter parses = pieces ++ [last] →
        (session limit .initial texts).map (List.filter (parses ·.source))
          = session limit .initial (pieces ++ [last]) := by
  obtain ⟨hjoinErrors, hjoin⟩ := ofSource_join hpieces
  obtain ⟨hpieces', hlast⟩ := List.forall_mem_append.mp hpieces
  obtain ⟨herrors, hends⟩ := List.forall_mem_singleton.mp hlast
  have hne := bareStatements_ne_nil herrors hends
  refine ⟨?_, fun texts htexts => htexts ▸ session_filter limit texts .initial⟩
  obtain ⟨before, hlastStep, hrun⟩ := lastStep_append hne hpieces' .initial hcompletes
  rw [hlastStep, lastStep_singleton herrors, lastStep_singleton hjoinErrors, hjoin,
    List.flatMap_append, List.flatMap_singleton, hrun]

/-- A function that is made by one text, called by the next and shown by the last. -/
theorem session_join_closures :
    let pieces := ["let n = 2; let f = fn(x) \x7b n * x \x7d;", "puts(f(3)); let n = 5;"]
    let last := "[f(4), f];"
    (∀ piece ∈ pieces ++ [last], (Program.ofSource piece).errors = [] ∧ EndsStatement piece) ∧
      Completes 1 .initial pieces ∧
      (lastStep 1 .initial (pieces ++ [last])).map Step.bare
        = (lastStep 1 .initial [String.join (pieces ++ [last])]).map Step.bare ∧
      ∀ texts, texts.filter parses = pieces ++ [last] →
        (session 1 .initial texts).map (List.filter (parses ·.source))
          = session 1 .initial (pieces ++ [last]) := by
  intro pieces last
  have hpieces : ∀ piece ∈ pieces ++ [last],
      (Program.ofSource piece).errors = [] ∧ EndsStatement piece := by
    refine List.forall_mem_cons.mpr ⟨⟨by decide +kernel, ?_⟩, List.forall_mem_cons.mpr
      ⟨⟨by decide +kernel, ?_⟩, List.forall_mem_singleton.mpr ⟨by decide +kernel, ?_⟩⟩⟩
    · exact ⟨(Token.stream pieces[0]).take 17, ⟨.semicolon, ";", .ofBounds 34 35⟩, .eofAt 35,
        by decide +kernel, rfl, by decide +kernel⟩
    · exact ⟨(Token.stream pieces[1]).take 12, ⟨.semicolon, ";", .ofBounds 21 22⟩, .eofAt 22,
        by decide +kernel, rfl, by decide +kernel⟩
    · exact ⟨(Token.stream last).take 8, ⟨.semicolon, ";", .ofBounds 9 10⟩, .eofAt 10,
        by decide +kernel, rfl, by decide +kernel⟩
  have hcompletes : Completes 1 .initial pieces := by decide +kernel
  exact ⟨hpieces, hcompletes, session_join 1 hpieces hcompletes⟩

end Scriptlet.Grammar
