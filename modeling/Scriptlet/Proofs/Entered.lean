import Scriptlet.CommandLine.Repl
import Scriptlet.Proofs.Again
import Scriptlet.Proofs.Failures
import Scriptlet.Proofs.LineTable

/-! # Lines that are entered

A function that one line makes can be called by any line after it, and a fault in it stands where
the function was written. The report of the fault counts lines in the line that was entered last.
That line is the only one to count, unless the function comes out of a longer line and the fault
lies behind the end of the last one: then the report names a second line, which there is not.
-/

namespace Scriptlet

open Text Grammar

namespace CommandLine.Repl

/-- The store of a session, with the lines that were entered so far, the last one first. -/
inductive Entered : List String → Store Token → Prop
  | start : Entered [] .initial
  | line {past : List String} {store : Store Token} (source : String) (h : Entered past store) :
      Entered (source :: past) (evaluate store source).2

/-- The code of any of the texts, and all strings. -/
def codeAmong (texts : List String) : Material Token where
  code node := ∃ source ∈ texts, (Program.ofSource source).errors = [] ∧
    node ∈ nodesOfStatements (Program.ofSource source).statements
  text _ := True
  text_of_code _ _ _ := trivial
  text_append _ _ _ _ := trivial

/-- But for what was written, the store is one that the code of the texts can reach. -/
def MadeFrom (texts : List String) (store : Store Token) : Prop :=
  ∃ shown : Store Token, shown.Reachable (codeAmong texts) ∧ shown.silent = store.silent

theorem codeAmong_cons {source : String} {texts : List String} {store : Store Token}
    (h : store.Reachable (codeAmong texts)) : store.Reachable (codeAmong (source :: texts)) := by
  induction h with
  | initial => exact .initial
  | openFrame _ hparent ih => exact ih.openFrame hparent
  | close _ hframe hcode ih =>
    refine ih.close hframe fun node hnode => ?_
    obtain ⟨origin, horigin, hnode⟩ := hcode node hnode
    exact ⟨origin, List.mem_cons_of_mem _ horigin, hnode⟩
  | declare name _ hid hvalue ih => exact ih.declare name hid hvalue
  | write text _ ih => exact ih.write text

theorem run_behind_silent (program : Program Token) (limit : Nat) {shown store : Store Token}
    (hsilent : shown.silent = store.silent) :
    program.run limit Store.globalFrame shown
      = (program.run limit Store.globalFrame store.silent).map
          fun (answer, after) => (answer, after.behind shown.output) := by
  rw [← hsilent, ← ((effect_of_evaluation limit Store.globalFrame).2.2.1 program).appends,
    Store.behind_silent]

/-- One more line keeps to its own code and to that of the lines before it. -/
theorem MadeFrom.evaluate {texts : List String} {store : Store Token} (h : MadeFrom texts store)
    (source : String) : MadeFrom (source :: texts) (evaluate store source).2 := by
  obtain ⟨shown, hreachable, hsilent⟩ := h
  have hsame : MadeFrom (source :: texts) store := ⟨shown, codeAmong_cons hreachable, hsilent⟩
  unfold Repl.evaluate
  dsimp only
  split
  · next herrors =>
    have hafter {answer : Except Failure Value} {after : Store Token}
        (hrun : (Program.ofSource source).run callLimit Store.globalFrame store.silent
          = some (answer, after)) : MadeFrom (source :: texts) after := by
      have hshown := run_behind_silent (.ofSource source) callLimit hsilent
      rw [hrun, Option.map_some] at hshown
      have hcode : ∀ node ∈ nodesOfStatements (Program.ofSource source).statements,
          (codeAmong (source :: texts)).code node := fun node hnode =>
        ⟨source, List.mem_cons_self, List.isEmpty_iff.mp herrors, hnode⟩
      exact ⟨after.behind shown.output, (Program.leads_of_run hcode (codeAmong_cons hreachable)
        hreachable.globalFrame_lt hshown).1.reachable, rfl⟩
    split
    · next hrun => exact hafter hrun
    · next hrun => exact hafter hrun
    · exact hsame
  · exact hsame

theorem Entered.madeFrom {past : List String} {store : Store Token} (h : Entered past store) :
    MadeFrom past store := by
  induction h with
  | start => exact ⟨.initial, .initial, rfl⟩
  | line source _ ih => exact ih.evaluate source

/-- A failure points at an expression of one of the texts. -/
def ComesFrom (texts : List String) (failure : Failure) (origin : String) : Prop :=
  origin ∈ texts ∧ (Program.ofSource origin).errors = [] ∧
    ∃ expr, .expr expr ∈ nodesOfStatements (Program.ofSource origin).statements ∧
      failure.span = expr.label.span ∧ failure.fault.Fits expr

theorem MadeFrom.comesFrom {texts : List String} {store after : Store Token} {failure : Failure}
    {source : String} (h : MadeFrom texts store) (herrors : (Program.ofSource source).errors = [])
    (hrun : (Program.ofSource source).run callLimit Store.globalFrame store.silent
      = some (.error failure, after)) :
    ∃ origin, ComesFrom (source :: texts) failure origin := by
  obtain ⟨shown, hreachable, hsilent⟩ := h
  have hshown := run_behind_silent (.ofSource source) callLimit hsilent
  rw [hrun, Option.map_some, Program.run, herrors] at hshown
  have hcode : ∀ node ∈ nodesOfStatements (Program.ofSource source).statements,
      (codeAmong (source :: texts)).code node := fun node hnode =>
    ⟨source, List.mem_cons_self, herrors, hnode⟩
  obtain ⟨site, hspan, expr, ⟨origin, horigin, horiginErrors, hnode⟩, hlabel, hfits⟩ :=
    raises_of_finish (stays_evalStatements (stays_call_of_code callLimit) _ hcode
      (codeAmong_cons hreachable) hreachable.globalFrame_lt .null) hshown
  exact ⟨origin, horigin, horiginErrors, expr, hnode, hlabel ▸ hspan, hfits⟩

theorem ComesFrom.start_le {texts : List String} {failure : Failure} {origin : String}
    (h : ComesFrom texts failure origin) (hsize : byteLength origin.toList < 2 ^ 32) :
    failure.span.start.toNat ≤ byteLength origin.toList := by
  obtain ⟨-, herrors, expr, hnode, hspan, -⟩ := h
  have hsigned := Program.signed_ofSource herrors _ hnode
  obtain ⟨piece, ⟨before, after, htext, hstart, -⟩, -⟩ :=
    Token.exists_slice_of_mem hsize hsigned.1
  have hlength := congrArg byteLength htext
  rw [byteLength_append] at hlength
  rw [hspan, ← hstart]
  omega

/-- The head of a report that names this line. -/
def headOf (line : Nat) : String :=
  "[line " ++ toString line ++ "] ERROR: "

theorem plain_of_single {source : String} (hsingle : '\n' ∉ source.toList) (failure : Failure) :
    failure.plain (.ofString source)
      = headOf (if failure.span.start.toNat ≤ byteLength source.toList then 1 else 2)
        ++ failure.fault.message := by
  rw [Failure.plain, Lines.tag, Lines.lineAt_of_single source hsingle, length_bytes, headOf]
  simp only [String.append_assoc]
  rfl

theorem begins_headOf_one (message : String) :
    (headOf 1).toList <+: (headOf 1 ++ message).toList :=
  ⟨message.toList, String.toList_append.symm⟩

theorem not_begins_headOf_two (message : String) :
    ¬(headOf 1).toList <+: (headOf 2 ++ message).toList := by
  rintro ⟨rest, heq⟩
  rw [String.toList_append] at heq
  have hheads := List.append_inj_left heq (by decide)
  exact absurd hheads (by decide)

/-- What the report of a failure in the line that was entered last says. -/
structure Reported (past : List String) (source : String) (failure : Failure) (report : String) :
    Prop where
  text : report = headOf (if failure.span.start.toNat ≤ byteLength source.toList then 1 else 2)
    ++ failure.fault.message
  first_iff : (headOf 1).toList <+: report.toList ↔
    failure.span.start.toNat ≤ byteLength source.toList
  origin : ∃ origin, ComesFrom (source :: past) failure origin ∧
    failure.span.start.toNat ≤ byteLength origin.toList
  first_of_longest : (∀ text ∈ past, byteLength text.toList ≤ byteLength source.toList) →
    (headOf 1).toList <+: report.toList

theorem reported_plain {past : List String} {source origin : String} {failure : Failure}
    (hsize : ∀ text ∈ source :: past, byteLength text.toList < 2 ^ 32)
    (hsingle : '\n' ∉ source.toList) (horigin : ComesFrom (source :: past) failure origin) :
    Reported past source failure (failure.plain (.ofString source)) := by
  have htext := plain_of_single hsingle failure
  have hfirst : (headOf 1).toList <+: (failure.plain (.ofString source)).toList ↔
      failure.span.start.toNat ≤ byteLength source.toList := by
    rw [htext]
    split
    · next hle => exact iff_of_true (begins_headOf_one _) hle
    · next hlt => exact iff_of_false (not_begins_headOf_two _) hlt
  have hstart := horigin.start_le (hsize origin horigin.1)
  refine ⟨htext, hfirst, ⟨origin, horigin, hstart⟩, fun hlongest => hfirst.mpr ?_⟩
  rcases List.mem_cons.mp horigin.1 with rfl | hpast
  · exact hstart
  · exact hstart.trans (hlongest origin hpast)

/-- A line that fails is answered with what it wrote and with the report of the failure, which names
the first line unless the fault lies behind the end of the line, in a longer one before it. -/
theorem evaluate_of_failure {past : List String} {store after : Store Token} {source : String}
    {failure : Failure} (hpast : Entered past store)
    (hsize : ∀ text ∈ source :: past, byteLength text.toList < 2 ^ 32)
    (hsingle : '\n' ∉ source.toList) (herrors : (Program.ofSource source).errors = [])
    (hrun : (Program.ofSource source).run callLimit Store.globalFrame store.silent
      = some (.error failure, after)) :
    evaluate store source = (after.output ++ failure.plain (.ofString source) ++ "\n", after) ∧
      Reported past source failure (failure.plain (.ofString source)) := by
  constructor
  · have hsilent : { store with output := "" } = store.silent := rfl
    rw [evaluate, hsilent]
    simp only [herrors, List.isEmpty_nil, if_true, hrun]
  · obtain ⟨origin, horigin⟩ := hpast.madeFrom.comesFrom herrors hrun
    exact reported_plain hsize hsingle horigin

section Longer

/-- A line that makes a function which will fail. -/
def making : String := "let f = fn() \x7b 1 + true \x7d;"

def calling : String := "f()"

theorem run_calling : ∃ (failure : Failure) (after : Store Token),
    (Program.ofSource calling).run callLimit Store.globalFrame (evaluate .initial making).2.silent
        = some (.error failure, after) ∧
      failure.plain (.ofString calling)
        = headOf 2 ++ "Type mismatch: expected INTEGER, got BOOLEAN" := by
  have hrun : ((Program.ofSource calling).run callLimit Store.globalFrame
      (evaluate .initial making).2.silent).map
        (fun ending => match ending.1 with
          | .ok _ => none
          | .error failure => some (failure.plain (.ofString calling)))
      = some (some (headOf 2 ++ "Type mismatch: expected INTEGER, got BOOLEAN")) := by
    decide +kernel
  obtain ⟨⟨answer, after⟩, hrun, hplain⟩ := Option.map_eq_some_iff.mp hrun
  cases answer with
  | ok value => cases hplain
  | error failure => exact ⟨failure, after, hrun, Option.some.inj hplain⟩

theorem calling_single : ∀ text ∈ [calling, making],
    '\n' ∉ text.toList ∧ byteLength text.toList < 2 ^ 32 := by
  decide

/-- The report on a call of a function that was made in a longer line. -/
theorem evaluate_of_failure_calling :
    ∃ (failure : Failure) (store after : Store Token), Entered [making] store ∧
      (∀ text ∈ [calling, making], byteLength text.toList < 2 ^ 32) ∧
      '\n' ∉ calling.toList ∧ (Program.ofSource calling).errors = [] ∧
      (Program.ofSource calling).run callLimit Store.globalFrame store.silent
        = some (.error failure, after) ∧
      evaluate store calling
        = (after.output ++ failure.plain (.ofString calling) ++ "\n", after) ∧
      Reported [making] calling failure
        (headOf 2 ++ "Type mismatch: expected INTEGER, got BOOLEAN") := by
  obtain ⟨failure, after, hrun, hplain⟩ := run_calling
  have hentered : Entered [making] (evaluate .initial making).2 := .line making .start
  have hsize : ∀ text ∈ [calling, making], byteLength text.toList < 2 ^ 32 :=
    fun text htext => (calling_single text htext).2
  have hsingle : '\n' ∉ calling.toList := (calling_single calling List.mem_cons_self).1
  have herrors : (Program.ofSource calling).errors = [] := by decide +kernel
  obtain ⟨hanswer, hreported⟩ := evaluate_of_failure hentered hsize hsingle herrors hrun
  exact ⟨failure, _, after, hentered, hsize, hsingle, herrors, hrun, hanswer, hplain ▸ hreported⟩

/-- Not every report names the first line. -/
theorem not_first_of_failure :
    ¬∀ (past : List String) (store after : Store Token) (source : String) (failure : Failure),
      Entered past store →
      (∀ text ∈ source :: past, '\n' ∉ text.toList ∧ byteLength text.toList < 2 ^ 32) →
      (Program.ofSource source).errors = [] →
      (Program.ofSource source).run callLimit Store.globalFrame store.silent
        = some (.error failure, after) →
      (headOf 1).toList <+: (failure.plain (.ofString source)).toList := by
  intro h
  obtain ⟨failure, after, hrun, hplain⟩ := run_calling
  have hfirst := h [making] _ after calling failure (.line making .start) calling_single
    (by decide +kernel) hrun
  rw [hplain] at hfirst
  exact not_begins_headOf_two _ hfirst

end Longer

end CommandLine.Repl

end Scriptlet
