import Scriptlet.Proofs.Closers
import Scriptlet.Proofs.Completed

/-! # Closing what is left open

A source without errors can leave blocks open, and nothing else. With the missing braces behind it,
it is read as the same program.
-/

namespace Scriptlet.Grammar

open Cursor Token

/-- A program without errors closes no brace that it has not opened. -/
theorem ReadsProgram.stays {s t : Cursor} {stmts : List (Stmt Token)} (h : ReadsProgram s stmts t) :
    Stays 0 s t := by
  induction h with
  | done _ => exact .refl
  | more hfirst _ ih =>
    have hstmt := (hfirst.closes (Nat.zero_le _)).andThen (Closes.skip _)
    exact (hstmt.stays.mono (Nat.zero_le _)).trans ih

theorem completed_of_closing {s : Cursor} (hend : s.atEnd = true) {closing : List Token}
    {last : Token} (hclosing : Closing closing) (hlast : last.kind = .eof) :
    Completed s ⟨closing ++ [last], closing.length⟩ := by
  induction closing with
  | nil => exact .done hend (by simp [atEnd, kind?, peek?, hlast]) rfl
  | cons brace rest ih =>
    obtain ⟨hbrace, hrest⟩ := List.forall_mem_cons.mp hclosing
    have hdepth : rest.length = brace.kind.depthAfter (brace :: rest).length := by
      rw [hbrace]
      rfl
    have htakes : Takes .rightBrace ⟨brace :: (rest ++ [last]), (brace :: rest).length⟩ brace
        ⟨rest ++ [last], rest.length⟩ :=
      eat?_eq_some_iff.mpr ⟨next?_eq_some_iff.mpr ⟨rfl, hdepth⟩, hbrace⟩
    exact .brace hend (Nat.succ_pos _) htakes (ih hrest)

/-- In front of the braces that are open behind the tokens, the input is completed. -/
theorem Cursor.Stays.exists_completed {least : Nat} {s t : Cursor} (h : Stays least s t)
    (hend : t.atEnd = true) {closing : List Token} {last : Token} (hclosing : Closing closing)
    (hlast : last.kind = .eof) (hdepth : t.depth = closing.length) :
    ∃ taken, s.tokens = taken ++ t.tokens ∧
      Completed s ⟨taken ++ (closing ++ [last]), s.depth⟩ := by
  induction h with
  | refl => exact ⟨[], rfl, hdepth ▸ completed_of_closing hend hclosing hlast⟩
  | @step s t _ token hnext heof _ _ ih =>
    obtain ⟨taken, htokens, hcompleted⟩ := ih hend hdepth
    obtain ⟨hhead, hafter⟩ := next?_eq_some_iff.mp hnext
    refine ⟨token :: taken, ?_, .token heof hnext ?_ hcompleted⟩
    · rw [hhead, htokens, List.cons_append]
    · exact next?_eq_some_iff.mpr ⟨rfl, hafter⟩

/-- A source without errors that does not end within a string has no more closing braces than
opening ones. The closing braces that are missing can be put behind it, and it is read as before. -/
theorem ofSource_append_closing {source : String} (hstring : ¬EndsInString source.toList)
    (herrors : (Program.ofSource source).errors = []) :
    ∃ missing, (Token.stream source).countP (·.kind = .leftBrace)
        = (Token.stream source).countP (·.kind = .rightBrace) + missing ∧
      Program.ofSource (source ++ String.ofList (List.replicate missing '}'))
        = Program.ofSource source := by
  have hstays := (reads_program (ofSource source) herrors).stays
  have hend := atEnd_program (ofSource source)
  obtain ⟨last, hlast, hkind⟩ := (crosses_program (ofSource source)).1.tokens_eq_of_atEnd hend
  obtain ⟨before, hbefore, hcount⟩ := hstays.count_eq
  have hstream : Token.stream source = before ++ [last] := hlast ▸ hbefore
  refine ⟨(ofSource source).program.2.depth, ?_, ?_⟩
  · have houtside : (ofSource source).depth = 0 := rfl
    simp only [hstream, List.countP_append, List.countP_singleton, hkind, reduceCtorEq]
    rw [houtside] at hcount
    simpa [Nat.add_comm] using hcount
  · obtain ⟨closing, last', hclosers, hlength, hclosing, hlast'⟩ :=
      exists_closing_replicate (ofSource source).program.2.depth (0 + Text.byteLength source.toList)
    obtain ⟨taken, htaken, hcompleted⟩ :=
      hstays.exists_completed hend hclosing hlast' hlength.symm
    cases List.append_cancel_right (hbefore.symm.trans htaken)
    have happend : ofSource
        (source ++ String.ofList (List.replicate (ofSource source).program.2.depth '}'))
          = ⟨before ++ (closing ++ [last']), (ofSource source).depth⟩ := by
      rw [ofSource, Token.stream, String.toList_append, String.toList_ofList,
        streamFrom_append_of_separate (separate_replicate _) source.toList hstring hstream,
        hclosers]
      rfl
    rw [Program.ofSource, happend]
    exact hcompleted.program _ _ rfl herrors

/-- A block in a block, a `return` that the input ends behind, and braces within a string and around
a map. -/
theorem ofSource_append_closing_nested :
    let source := "let f = fn(x) \x7b let g = if (x) \x7b \x7b\"k\x7d\": x\x7d[1] \x7d "
      ++ "else \x7b fn() \x7b return"
    ¬EndsInString source.toList ∧ (Program.ofSource source).errors = [] ∧
      (Token.stream source).countP (·.kind = .leftBrace) = 5 ∧
      ∃ missing, (Token.stream source).countP (·.kind = .leftBrace)
          = (Token.stream source).countP (·.kind = .rightBrace) + missing ∧
        Program.ofSource (source ++ String.ofList (List.replicate missing '}'))
          = Program.ofSource source := by
  intro source
  have hstring : ¬EndsInString source.toList := by decide
  have herrors : (Program.ofSource source).errors = [] := by decide +kernel
  have hcount : (Token.stream source).countP (·.kind = .leftBrace) = 5 := by decide +kernel
  exact ⟨hstring, herrors, hcount, ofSource_append_closing hstring herrors⟩

end Scriptlet.Grammar
