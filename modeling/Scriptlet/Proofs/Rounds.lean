import Scriptlet.Proofs.Consumption
import Scriptlet.Proofs.Relabel

/-! # The rounds of reading a program

A program is read in rounds. Each round takes a statement, or meets an error and recovers from it,
and each moves past at least one token. There is a round at every cursor that is not at the end, so
rounds go on until nothing but the end of the input is left, and there are no more of them than
tokens in front of it.
-/

namespace Scriptlet.Grammar

namespace Program

variable {α : Type}

/-- How many statements and errors there are. -/
def length (program : Program α) : Nat :=
  program.statements.length + program.errors.length

theorem length_append (first second : Program α) :
    (first ++ second).length = first.length + second.length := by
  have hstatements : (first ++ second).statements = first.statements ++ second.statements := rfl
  have herrors : (first ++ second).errors = first.errors ++ second.errors := rfl
  simp only [length, hstatements, herrors, List.length_append]
  omega

end Program

namespace Cursor

/-- One round at a cursor, what it adds to the program, and the cursor after it. -/
inductive Round (s : Cursor) : Program Token → Cursor → Prop
  | statement {first t shorter} : ¬s.atEnd = true → s.topStatement = .ok first t shorter →
      Round s ⟨[first], []⟩ t
  | recovery {error t within} : ¬s.atEnd = true → s.topStatement = .fail error t within →
      Round s ⟨[], [error]⟩ t.recover

/-- All rounds from a cursor on, their number, the program they make and the cursor they end at. -/
inductive Rounds : Nat → Cursor → Program Token → Cursor → Prop
  | done {s} : s.atEnd = true → Rounds 0 s ⟨[], []⟩ s
  | next {count s t u gained others} : s.Round gained t → Rounds count t others u →
      Rounds (count + 1) s (gained ++ others) u

variable {s t : Cursor} {gained program : Program Token} {count : Nat}

/-! ### One round -/

theorem Round.length_eq (h : s.Round gained t) : gained.length = 1 := by
  cases h <;> rfl

theorem Round.size_lt (h : s.Round gained t) : t.size < s.size := by
  cases h with
  | @statement _ _ shorter _ hfirst => exact shorter
  | @recovery _ _ within hend _ => exact size_recover_lt hend within

theorem Round.crosses (h : s.Round gained t) : s.Crosses (· ≠ .eof) t := by
  have horderly := orderly_topStatement s
  cases h with
  | statement _ hfirst =>
    rw [hfirst] at horderly
    exact Crosses.imp horderly ne_eof_of_grammatical
  | recovery _ hfail =>
    rw [hfail] at horderly
    obtain ⟨r, hr, hstuck⟩ := horderly
    exact ((hr.trans hstuck.crosses).imp ne_eof_of_grammatical).trans (crosses_recover _)

/-- A round takes the upcoming token, and never the end of the input. -/
theorem Round.exists_taken (h : s.Round gained t) :
    ∃ token taken, s.tokens = token :: taken ++ t.tokens ∧
      ∀ one ∈ token :: taken, one.kind ≠ .eof :=
  h.crosses.exists_cons h.size_lt

theorem exists_round_iff : (∃ gained t, s.Round gained t) ↔ ¬s.atEnd = true := by
  constructor
  · rintro ⟨gained, t, ⟨hend, -⟩ | ⟨hend, -⟩⟩ <;> exact hend
  · intro hend
    cases hfirst : s.topStatement with
    | ok first t shorter => exact ⟨_, _, .statement hend hfirst⟩
    | fail error t within => exact ⟨_, _, .recovery hend hfirst⟩

theorem Round.program_eq (h : s.Round gained t) :
    s.program = (gained ++ t.program.1, t.program.2) := by
  cases h with
  | statement hend hfirst => exact program_of_ok hend hfirst
  | recovery hend hfail => exact program_of_fail hend hfail

/-- There is no endless sequence of rounds. -/
theorem wellFounded_round : WellFounded fun t s : Cursor => ∃ gained, s.Round gained t :=
  Subrelation.wf (fun ⟨_, hround⟩ => hround.size_lt) (measure Cursor.size).wf

/-! ### All rounds -/

theorem exists_rounds (s : Cursor) : ∃ count, Rounds count s s.program.1 s.program.2 := by
  induction s using wellFounded_round.induction with
  | _ s ih =>
    by_cases hend : s.atEnd = true
    · rw [program_of_atEnd hend]
      exact ⟨0, .done hend⟩
    · obtain ⟨gained, t, hround⟩ := exists_round_iff.mpr hend
      obtain ⟨count, hrounds⟩ := ih t ⟨gained, hround⟩
      rw [hround.program_eq]
      exact ⟨count + 1, .next hround hrounds⟩

theorem Rounds.length_eq (h : Rounds count s program t) : program.length = count := by
  induction h with
  | done => rfl
  | next hround hrounds ih =>
    rw [Program.length_append, hround.length_eq, ih]
    exact Nat.add_comm _ _

theorem Rounds.atEnd (h : Rounds count s program t) : t.atEnd = true := by
  induction h with
  | done hend => exact hend
  | next _ _ ih => exact ih

theorem Rounds.crosses (h : Rounds count s program t) : s.Crosses (· ≠ .eof) t := by
  induction h with
  | done => exact .refl _
  | next hround _ ih => exact hround.crosses.trans ih

theorem Rounds.add_size_le (h : Rounds count s program t) : count + t.size ≤ s.size := by
  induction h with
  | done => exact Nat.le_of_eq (Nat.zero_add _)
  | next hround _ ih =>
    have hlt := hround.size_lt
    omega

/-- Reading any text ends. Every round moves past a token in front of the end of the input, so there
are no more statements and errors than tokens, and the end of the input is what is left. -/
theorem rounds_ofSource (source : String) :
    (WellFounded fun t s : Cursor => ∃ gained, s.Round gained t) ∧
    (∀ s gained t, Round s gained t →
      gained.statements.length + gained.errors.length = 1 ∧
        ∃ token taken, s.tokens = token :: taken ++ t.tokens ∧
          ∀ one ∈ token :: taken, one.kind ≠ .eof) ∧
    ∃ before last count,
      Token.stream source = before ++ [last] ∧
      (∀ token ∈ before, token.kind ≠ .eof) ∧ last.kind = .eof ∧
      Rounds count (ofSource source) (Program.ofSource source) (ofSource source).program.2 ∧
      (Program.ofSource source).statements.length + (Program.ofSource source).errors.length
        = count ∧
      count ≤ before.length ∧
      (ofSource source).program.2.tokens = [last] := by
  refine ⟨wellFounded_round, fun s gained t h => ⟨h.length_eq, h.exists_taken⟩, ?_⟩
  obtain ⟨count, hrounds⟩ := exists_rounds (ofSource source)
  obtain ⟨last, hlast, hkind⟩ := hrounds.crosses.tokens_eq_of_atEnd hrounds.atEnd
  obtain ⟨before, htokens, hbefore⟩ := hrounds.crosses
  rw [hlast] at htokens
  refine ⟨before, last, count, htokens, hbefore, hkind, hrounds, hrounds.length_eq, ?_, hlast⟩
  have hle := hrounds.add_size_le
  simp only [size, hlast, htokens, List.length_append, List.length_singleton] at hle
  omega

end Cursor

end Scriptlet.Grammar
