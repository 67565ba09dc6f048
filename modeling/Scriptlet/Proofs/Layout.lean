import Scriptlet.Proofs.Compose
import Scriptlet.Proofs.Mirror
import Scriptlet.Proofs.Words

/-! # Layout makes no difference

Sources that consist of the same words are the same program at other places: they have the same
trees and the same errors, and they run alike. A place is seen only where a fault is reported.
-/

namespace Scriptlet

/-- The place of code whose place does not matter. -/
def Span.nowhere (_ : Span) : Span :=
  ⟨0, 0⟩

/-! ### Programs at other places -/

namespace Grammar

theorem Error.message_comp_mapSpan (f : Span → Span) : message ∘ mapSpan f = message :=
  rfl

namespace Program

theorem render_mapSpans (f : Span → Span) (program : Program Token) :
    (program.mapSpans f).render = program.render := by
  rw [render, render, mapSpans, ← relabelStatements_eq_map, renderStatements_relabel]

theorem messages_mapSpans (f : Span → Span) (program : Program Token) :
    (program.mapSpans f).errors.map Error.message = program.errors.map Error.message := by
  rw [mapSpans, List.map_map, Error.message_comp_mapSpan]

/-- The words of a source decide what program it is. -/
theorem mapSpans_nowhere_congr {first second : String}
    (h : (Token.stream first).map Token.word = (Token.stream second).map Token.word) :
    (ofSource first).mapSpans Span.nowhere = (ofSource second).mapSpans Span.nowhere := by
  have hbare : ∀ source, (Token.stream source).map (Token.mapSpan Span.nowhere)
      = ((Token.stream source).map Token.word).map fun word => ⟨word.1, word.2, ⟨0, 0⟩⟩ := by
    intro source
    rw [List.map_map]
    rfl
  rw [ofSource, ofSource, ← program_of_movedTo (movedTo_ofSource Span.nowhere first),
    ← program_of_movedTo (movedTo_ofSource Span.nowhere second), hbare, hbare, h]

end Program

end Grammar

/-! ### Runs at other places -/

/-- The fault without the places of the errors that it may be about. -/
def Fault.bare : Fault → Fault
  | malformed errors => malformed (errors.map (Grammar.Error.mapSpan Span.nowhere))
  | fault => fault

theorem Fault.message_bare (fault : Fault) : fault.bare.message = fault.message := by
  cases fault with
  | malformed errors =>
    have htext : ∀ errors, (malformed errors).message
        = "Parse error: " ++ "; ".intercalate (errors.map Grammar.Error.message) := fun _ => rfl
    rw [bare, htext, htext, List.map_map, Grammar.Error.message_comp_mapSpan]
  | _ => rfl

theorem Fault.bare_malformed_map (f : Span → Span) (errors : List Grammar.Error) :
    (malformed (errors.map (Grammar.Error.mapSpan f))).bare = (malformed errors).bare := by
  rw [bare, bare, List.map_map]
  rfl

/-- What can be seen of the end of a run in a frame: the text of its value or its fault with the
message, what was written, and the names of the frame with the texts of their values. -/
structure Sight where
  answer : Except (Fault × String) String
  output : String
  bindings : List (String × String)

namespace Store

/-- The names bound in a frame, with the texts of their values. -/
def renderBindings {α : Type} (store : Store α) (id : Nat) : List (String × String) :=
  ((store.frames[id]?.map (·.bindings)).getD []).map fun (name, value) => (name, store.render value)

def sight (frame : Nat) (answer : Except Failure Value) (store : Store Token) : Sight where
  answer := (answer.mapError fun failure =>
    (failure.fault.bare, failure.fault.message)).map store.render
  output := store.output
  bindings := store.renderBindings frame

end Store

theorem Store.sight_relabel (f : Token → Token) (frame : Nat) (answer : Except Failure Value)
    (store : Store Token) : (store.relabel f).sight frame answer = store.sight frame answer := by
  have hrender : (store.relabel f).render = store.render := funext (store.render_relabel f)
  rw [sight, sight, renderBindings, renderBindings, hrender]
  rfl

theorem Store.sight_error_congr {failure failure' : Failure}
    (h : failure.fault.bare = failure'.fault.bare) (frame : Nat) (store : Store Token) :
    store.sight frame (.error failure) = store.sight frame (.error failure') := by
  have hmessage : failure.fault.message = failure'.fault.message := by
    rw [← failure.fault.message_bare, h, failure'.fault.message_bare]
  simp only [sight, Except.mapError, h, hmessage]

namespace Grammar

/-- What is seen of the run of a program in a frame of a store, if it ends. -/
def Program.sight (limit frame : Nat) (program : Program Token) (store : Store Token) :
    Option Sight :=
  (program.run limit frame store).map fun (answer, after) => after.sight frame answer

/-- A program that stands elsewhere runs alike. -/
theorem Program.sight_mapSpans (f : Span → Span) (limit frame : Nat) (program : Program Token)
    (store : Store Token) :
    (program.mapSpans f).sight limit frame (store.relabel (Token.mapSpan f))
      = program.sight limit frame store := by
  rw [sight, sight]
  cases herrors : program.errors with
  | nil =>
    have herrors' : (program.mapSpans f).errors = [] := by rw [mapSpans, herrors, List.map_nil]
    have hmirrors := mirrors_evalStatements (mirrors_call (Token.mapSpan f) limit) frame
      program.statements .null store
    rw [relabelStatements_eq_map] at hmirrors
    rw [run_of_errors_eq_nil herrors, run_of_errors_eq_nil herrors', mapSpans, hmirrors,
      Option.map_map, Option.map_map, Option.map_map]
    congr 1
    funext ending
    obtain ⟨result, after⟩ := ending
    refine (Store.sight_relabel (Token.mapSpan f) frame _ after).trans ?_
    rcases result with (_ | _) | _ <;> rfl
  | cons first rest =>
    have hrun : program.run limit frame store
        = some (.error ⟨.malformed (first :: rest), first.span⟩, store) := by
      rw [run, herrors]
    have hrun' : (program.mapSpans f).run limit frame (store.relabel (Token.mapSpan f))
        = some (.error ⟨.malformed ((first :: rest).map (Error.mapSpan f)), f first.span⟩,
          store.relabel (Token.mapSpan f)) := by
      rw [run, mapSpans, herrors]
      rfl
    rw [hrun, hrun', Option.map_some, Option.map_some]
    congr 1
    refine (Store.sight_relabel (Token.mapSpan f) frame _ store).trans ?_
    exact Store.sight_error_congr (Fault.bare_malformed_map f _) frame store

/-- Sources with the same words have the same statements and errors but for the places, the same
text and the same messages. In a new store they run alike: one run ends if the other does, with the
same text or the same fault, the same output and the same bindings. -/
theorem layout_of_words {first second : String}
    (h : (Token.stream first).map Token.word = (Token.stream second).map Token.word) :
    (Program.ofSource first).mapSpans Span.nowhere
        = (Program.ofSource second).mapSpans Span.nowhere ∧
      (Program.ofSource first).render = (Program.ofSource second).render ∧
      (Program.ofSource first).errors.map Error.message
        = (Program.ofSource second).errors.map Error.message ∧
      (∀ limit, (Program.ofSource first).sight limit Store.globalFrame .initial
        = (Program.ofSource second).sight limit Store.globalFrame .initial) ∧
      ((∃ limit, ((Program.ofSource first).run limit Store.globalFrame .initial).isSome)
        ↔ ∃ limit, ((Program.ofSource second).run limit Store.globalFrame .initial).isSome) := by
  have hsame := Program.mapSpans_nowhere_congr h
  have hsight : ∀ limit, (Program.ofSource first).sight limit Store.globalFrame .initial
      = (Program.ofSource second).sight limit Store.globalFrame .initial := by
    intro limit
    have hfirst := Program.sight_mapSpans Span.nowhere limit Store.globalFrame
      (Program.ofSource first) .initial
    have hsecond := Program.sight_mapSpans Span.nowhere limit Store.globalFrame
      (Program.ofSource second) .initial
    exact (hfirst.symm.trans (hsame ▸ rfl)).trans hsecond
  have hends : ∀ limit, ((Program.ofSource first).run limit Store.globalFrame .initial).isSome
      = ((Program.ofSource second).run limit Store.globalFrame .initial).isSome := by
    intro limit
    simpa only [Program.sight, Option.isSome_map] using congrArg Option.isSome (hsight limit)
  refine ⟨hsame, ?_, ?_, hsight, ?_⟩
  · rw [← Program.render_mapSpans Span.nowhere, hsame, Program.render_mapSpans]
  · rw [← Program.messages_mapSpans Span.nowhere, hsame, Program.messages_mapSpans]
  · simp only [hends]

/-- Functions, output and a fault, with and without blanks, and in one line or more. -/
theorem layout_of_words_lines :
    let first := "let f = fn(x) \x7b puts(x); x / 0 \x7d; f(1)"
    let second := "let f=fn( x )\x7bputs ( x )\n;x/0\x7d\n; f ( 1\u3000)\n"
    (Token.stream first).map Token.word = (Token.stream second).map Token.word ∧
      (Program.ofSource first).mapSpans Span.nowhere
        = (Program.ofSource second).mapSpans Span.nowhere ∧
      (∀ limit, (Program.ofSource first).sight limit Store.globalFrame .initial
        = (Program.ofSource second).sight limit Store.globalFrame .initial) := by
  intro first second
  have hwords : (Token.stream first).map Token.word = (Token.stream second).map Token.word := by
    decide +kernel
  obtain ⟨hsame, -, -, hsight, -⟩ := layout_of_words hwords
  exact ⟨hwords, hsame, hsight⟩

end Grammar

end Scriptlet
