import Scriptlet.CommandLine.Reply
import Scriptlet.Proofs.Consumption

/-! # What the commands accept

The commands that take a source agree on what is a valid program. Reading without errors leaves no
token to chance: all but the end of the input is taken by the grammar, which has no place for an
illegal token. So the status of a listing of tokens can only be a success where the others accept
the source or reject it for its grammar, and a program that is rejected is not evaluated.
-/

namespace Scriptlet

namespace Grammar

/-- The statements were read from all tokens of the source but the last, which ends the input. -/
structure Covers (source : String) (stmts : List (Stmt Token)) (stop : Cursor) : Prop where
  reads : ReadsProgram (Cursor.ofSource source) stmts stop
  grammatical : (Cursor.ofSource source).Crosses Grammatical stop
  ends : ∃ last, stop.tokens = [last] ∧ last.kind = .eof

theorem covers_of_errors {source : String} (h : (Program.ofSource source).errors = []) :
    Covers source (Program.ofSource source).statements (Cursor.ofSource source).program.2 where
  reads := reads_program _ h
  grammatical := crosses_program_of_errors h
  ends := Cursor.Crosses.tokens_eq_of_atEnd (crosses_program _).1 (atEnd_program _)

theorem Covers.ne_illegal {source : String} {stmts : List (Stmt Token)} {stop : Cursor}
    (h : Covers source stmts stop) : ∀ token ∈ Token.stream source, token.kind ≠ .illegal := by
  obtain ⟨taken, htokens, htaken⟩ := h.grammatical
  obtain ⟨last, hlast, hkind⟩ := h.ends
  intro token htoken
  rw [show Token.stream source = taken ++ [last] from hlast ▸ htokens] at htoken
  rcases List.mem_append.mp htoken with htoken | htoken
  · exact (htaken token htoken).2
  · rw [List.mem_singleton.mp htoken, hkind]
    decide

theorem errors_ne_nil_of_illegal {source : String}
    (h : ∃ token ∈ Token.stream source, token.kind = .illegal) :
    (Program.ofSource source).errors ≠ [] := by
  intro herrors
  obtain ⟨token, htoken, hkind⟩ := h
  exact (covers_of_errors herrors).ne_illegal token htoken hkind

end Grammar

namespace CommandLine.Reply

open Grammar

/-- The reply of `run` with another way to evaluate programs. -/
def runBy (evaluate : Program Token → Store Token → Option (Except Failure Value × Store Token))
    (format : ReportFormat) (path source : String) : Reply :=
  let program := Program.ofSource source
  if program.errors.isEmpty then
    match evaluate program .initial with
    | some (.ok _, store) => success store.output
    | some (.error failure, store) =>
      ⟨failureStatus, store.output, failureReport format path source failure ++ "\n"⟩
    | none => ⟨failureStatus, "", tooDeep⟩
  else
    ⟨invalidStatus, "", Report.joinLines (program.errors.map (errorReport format path source))⟩

theorem run_eq_runBy (format : ReportFormat) (path source : String) :
    run format path source
      = runBy (fun program => program.run callLimit Store.globalFrame) format path source := rfl

theorem status_tokenize_iff (format : TokenFormat) (source : String) :
    (tokenize format source).status = invalidStatus ↔
      ∃ token ∈ Token.stream source, token.kind = .illegal := by
  simp only [tokenize]
  split <;> simp_all [success, invalidStatus]

theorem status_parse_iff (format : ProgramFormat) (source : String) :
    (parse format source).status = invalidStatus ↔ (Program.ofSource source).errors ≠ [] := by
  simp only [parse, List.isEmpty_iff]
  split <;> simp_all [success, invalidStatus]

theorem status_run_iff (format : ReportFormat) (path source : String) :
    (run format path source).status = invalidStatus ↔ (Program.ofSource source).errors ≠ [] := by
  simp only [run, List.isEmpty_iff]
  split
  · next h =>
    rw [h]
    split <;> simp [success, invalidStatus, failureStatus]
  · next h => exact ⟨fun _ => h, fun _ => rfl⟩

/-- A program with errors is reported, whatever evaluation would do. -/
theorem runBy_of_errors
    (evaluate : Program Token → Store Token → Option (Except Failure Value × Store Token))
    (format : ReportFormat) (path : String) {source : String}
    (h : (Program.ofSource source).errors ≠ []) :
    runBy evaluate format path source = ⟨invalidStatus, "", Report.joinLines
      ((Program.ofSource source).errors.map (errorReport format path source))⟩ := by
  simp only [runBy, List.isEmpty_iff, if_neg h]

/-- The commands agree on what is a valid program. One without errors is read from all its tokens,
so none of them is illegal; and where `tokenize` finds an illegal one, `parse` and `run` reject the
source, the latter without a word and before anything is evaluated. -/
theorem agree_ofCommand (source : String) :
    ((∃ token ∈ Token.stream source, token.kind = .illegal) →
      (Program.ofSource source).errors ≠ []) ∧
    ((Program.ofSource source).errors = [] →
      (∃ stop, Covers source (Program.ofSource source).statements stop) ∧
        ∀ token ∈ Token.stream source, token.kind ≠ .illegal) ∧
    ∀ (input path : String) (tokens : TokenFormat) (program : ProgramFormat)
        (report : ReportFormat),
      let tokenized := ofCommand source input (.tokenize path tokens)
      let parsed := ofCommand source input (.parse path program)
      let ran := ofCommand source input (.run path report)
      (tokenized.status = 65 → parsed.status = 65 ∧ ran.status = 65 ∧ ran.out = "" ∧
        ∀ evaluate, runBy evaluate report path source = ran) ∧
      (parsed.status = 65 ↔ ran.status = 65) := by
  refine ⟨errors_ne_nil_of_illegal, fun herrors => ?_, ?_⟩
  · have hcovers := covers_of_errors herrors
    exact ⟨⟨_, hcovers⟩, hcovers.ne_illegal⟩
  · intro input path tokens program report tokenized parsed ran
    have hparsed : parsed.status = 65 ↔ (Program.ofSource source).errors ≠ [] :=
      status_parse_iff program source
    have hran : ran.status = 65 ↔ (Program.ofSource source).errors ≠ [] :=
      status_run_iff report path source
    refine ⟨fun htokenized => ?_, hparsed.trans hran.symm⟩
    have herrors := errors_ne_nil_of_illegal ((status_tokenize_iff tokens source).mp htokenized)
    have hrejected := (run_eq_runBy report path source).trans
      (runBy_of_errors _ report path herrors)
    refine ⟨hparsed.mpr herrors, hran.mpr herrors, congrArg Reply.out hrejected, ?_⟩
    exact fun evaluate => (runBy_of_errors evaluate report path herrors).trans hrejected.symm

/-- A stray character inside a block, behind statements that could be evaluated. -/
example : (tokenize .basic "puts(1); if (true) \x7b @ \x7d; puts(2)").status = 65 := by
  decide +kernel

end CommandLine.Reply

end Scriptlet
