import Mathlib.Logic.Relation
import Scriptlet.Proofs.Climbing
import Scriptlet.Proofs.Resumed
import Scriptlet.Proofs.Rounds

/-! # The count of open braces

Whoever takes a brace, it is counted. A phrase that can be read leaves the count as it was, unless
the input ends within it, and on the way the count is never lower, so that no closing brace is lost
on a count of zero. Recovery stops outside all braces, or else at the end of the input. So every
statement of a program begins outside all braces, whatever has failed before it.
-/

namespace Scriptlet.Grammar

open Cursor Relation

namespace Cursor

/-- One token further. -/
def Steps (s t : Cursor) : Prop :=
  ∃ token, s.next? = some (token, t)

/-- What a reader that gets from one cursor to another does to the count. As readers move by taking
tokens, they pass the cursors between the two and no others. -/
structure Restores (s t : Cursor) : Prop where
  reaches : ReflTransGen Steps s t
  depth : t.depth = s.depth ∨ t.kind? = some .eof
  within : ∀ r, ReflTransGen Steps s r → ReflTransGen Steps r t → s.depth ≤ r.depth
  /-- No closing brace finds the count at zero. -/
  counts : ∀ r u brace, ReflTransGen Steps s r → r.Takes .rightBrace brace u →
    ReflTransGen Steps u t → u.depth + 1 = r.depth

/-- From the start of a round of reading a program to the start of the same round or a later one. -/
def RoundsTo : Cursor → Cursor → Prop :=
  ReflTransGen fun s t => ∃ gained, s.Round gained t

/-! ### The way between two cursors -/

theorem size_le_of_steps {s t : Cursor} (h : ReflTransGen Steps s t) : t.size ≤ s.size := by
  induction h with
  | refl => exact Nat.le_refl _
  | tail _ hstep ih =>
    obtain ⟨token, hnext⟩ := hstep
    exact (Nat.le_of_lt (size_lt_of_next? hnext)).trans ih

theorem not_steps_back {s t : Cursor} (hstep : s.Steps t) : ¬ReflTransGen Steps t s := by
  intro hback
  obtain ⟨token, hnext⟩ := hstep
  exact absurd (size_le_of_steps hback) (Nat.not_le.mpr (size_lt_of_next? hnext))

namespace Stays

variable {least : Nat} {s r t u : Cursor} {brace : Token}

theorem steps (h : Stays least s t) : ReflTransGen Steps s t := by
  induction h with
  | refl => exact .refl
  | step hnext _ _ _ ih => exact .head ⟨_, hnext⟩ ih

theorem crosses (h : Stays least s t) : s.Crosses (· ≠ .eof) t := by
  induction h with
  | refl => exact .refl _
  | step hnext heof _ _ ih => exact (Crosses.of_next? hnext heof).trans ih

/-- The tokens decide the way, so what holds of all of it holds of its parts. -/
theorem split (h : Stays least s t) (hfront : ReflTransGen Steps s r)
    (hback : ReflTransGen Steps r t) : Stays least s r ∧ Stays least r t := by
  induction h with
  | refl =>
    rcases hfront.cases_head with rfl | ⟨u, hstep, hfront⟩
    · exact ⟨.refl, .refl⟩
    · exact absurd (hfront.trans hback) (not_steps_back hstep)
  | step hnext heof hbrace hrest ih =>
    rcases hfront.cases_head with rfl | ⟨u, ⟨token, hnext'⟩, hfront⟩
    · exact ⟨.refl, .step hnext heof hbrace hrest⟩
    · cases hnext.symm.trans hnext'
      obtain ⟨hbefore, hafter⟩ := ih hfront hback
      exact ⟨.step hnext heof hbrace hbefore, hafter⟩

theorem lt_depth (h : Stays least r t) (hbrace : r.Takes .rightBrace brace u)
    (hback : ReflTransGen Steps u t) : least < r.depth := by
  cases h with
  | refl => exact absurd hback (not_steps_back ⟨_, hbrace.next?_eq⟩)
  | step hnext _ hcount _ =>
    cases hbrace.next?_eq.symm.trans hnext
    exact hcount hbrace.kind_eq

end Stays

/-! ### Phrases -/

theorem Bounded.kind?_of_atEnd {s : Cursor} (hs : s.Bounded) (hend : s.atEnd = true) :
    s.kind? = some .eof := by
  obtain ⟨token, -, hpeek⟩ := hs.exists_peek?
  simpa [atEnd, kind?, hpeek] using hend

theorem Outside.depth_or_eof {s : Cursor} (h : s.Outside) (hs : s.Bounded) :
    s.depth = 0 ∨ s.kind? = some .eof :=
  h.imp_right hs.kind?_of_atEnd

theorem Closes.restores {s t : Cursor} (h : Closes 0 s t) (hs : s.Bounded) : s.Restores t where
  reaches := h.stays.steps
  depth := h.depth.imp_right (hs.of_crosses h.stays.crosses).kind?_of_atEnd
  within r hfront hback := (h.stays.split hfront hback).1.le_depth (Nat.le_refl _)
  counts r u brace hfront hbrace hback := by
    have hway : ReflTransGen Steps r t := .head ⟨brace, hbrace.next?_eq⟩ hback
    have hopen : s.depth < r.depth := (h.stays.split hfront hway).2.lt_depth hbrace hback
    have hdepth : u.depth = r.depth - 1 := hbrace.depth_eq
    omega

theorem closes_expressionAbove (least : Nat) (s : Cursor) :
    (s.expressionAbove least).Ends fun _ t => Closes 0 s t :=
  fun value t ht h => (reads_expressionAbove least s value t ht h).closes (Nat.zero_le _)

variable {n : Nat} {s : Cursor} (hs : s.size < n)

theorem closes_block : (Cursor.block (above n 0) s hs).Ends fun _ t => Closes 0 s t :=
  fun block t ht h =>
    (reads_block (fun t _ => reads_expressionAbove 0 t) s hs block t ht h).closes (Nat.zero_le _)

theorem closes_statement : (Cursor.statement (above n 0) s hs).Ends fun _ t => Closes 0 s t := by
  intro stmt t ht h
  obtain ⟨u, hreads, rfl⟩ := reads_statement (fun t _ => reads_expressionAbove 0 t) s hs stmt t ht h
  exact (hreads.closes (Nat.zero_le _)).andThen (Closes.skip u)

/-! ### Rounds -/

theorem outside_recover (s : Cursor) : s.recover.Outside := by
  obtain ⟨tokens, depth⟩ := s
  induction tokens generalizing depth with
  | nil => exact Or.inr rfl
  | cons token rest ih =>
    simp only [recover, resume]
    split
    · next heof => exact Or.inr (by simp [atEnd, kind?, peek?, heof])
    · split
      · next hsemicolon => exact Or.inl hsemicolon.2
      · split
        · next hbrace => exact Or.inl ((depth_skip_semicolon _).trans hbrace.2)
        · exact ih _

/-- A round that begins outside all braces ends outside all braces, even if it is given up. -/
theorem Round.outside {s t : Cursor} {gained : Program Token} (h : s.Round gained t)
    (hs : s.Outside) : t.Outside := by
  cases h with
  | @statement first _ shorter hend hfirst =>
    have hdepth : s.depth = 0 := hs.resolve_right hend
    have hcloses : Closes 0 s t := closes_statement s.size_lt_succ first t shorter hfirst
    exact hcloses.depth.imp_left fun hsame => hsame.trans hdepth
  | recovery => exact outside_recover _

theorem RoundsTo.outside {s t : Cursor} (h : s.RoundsTo t) (hs : s.Outside) : t.Outside := by
  induction h with
  | refl => exact hs
  | tail _ hround ih =>
    obtain ⟨gained, hround⟩ := hround
    exact hround.outside ih

theorem RoundsTo.crosses {s t : Cursor} (h : s.RoundsTo t) : s.Crosses (· ≠ .eof) t := by
  induction h with
  | refl => exact .refl _
  | tail _ hround ih =>
    obtain ⟨gained, hround⟩ := hround
    exact ih.trans hround.crosses

theorem Rounds.roundsTo {count : Nat} {s t : Cursor} {program : Program Token}
    (h : Rounds count s program t) : s.RoundsTo t := by
  induction h with
  | done => exact .refl
  | next hround _ ih => exact .head ⟨_, hround⟩ ih

end Cursor

/-- Every round of reading a text begins outside all braces or at the end of the input, and the
rounds lead to where the program ends. Wherever in the text, and however many braces are open there,
an expression, a block or a statement that can be read restores the count. -/
theorem restored_ofSource (source : String) :
    (∀ s, (ofSource source).RoundsTo s → s.depth = 0 ∨ s.kind? = some .eof) ∧
    (ofSource source).RoundsTo (ofSource source).program.2 ∧
    ∀ s, (ofSource source).Crosses (· ≠ .eof) s →
      (∀ least, (s.expressionAbove least).Ends fun _ t => s.Restores t) ∧
      ∀ n hs, (Cursor.block (above n 0) s hs).Ends (fun _ t => s.Restores t) ∧
        (statement (above n 0) s hs).Ends fun _ t => s.Restores t := by
  have hbounded {s : Cursor} (hcross : (ofSource source).Crosses (· ≠ .eof) s) : s.Bounded :=
    (bounded_ofSource source).of_crosses hcross
  refine ⟨fun s hs => ?_, ?_, fun s hcross => ⟨fun least => ?_, fun n hs => ⟨?_, ?_⟩⟩⟩
  · exact (hs.outside (Or.inl rfl)).depth_or_eof (hbounded hs.crosses)
  · obtain ⟨count, hrounds⟩ := exists_rounds (ofSource source)
    exact hrounds.roundsTo
  · intro value t ht h
    exact (closes_expressionAbove least s value t ht h).restores (hbounded hcross)
  · intro block t ht h
    exact (closes_block hs block t ht h).restores (hbounded hcross)
  · intro stmt t ht h
    exact (closes_statement hs stmt t ht h).restores (hbounded hcross)

/-- A block that the input ends within leaves its brace open. -/
example : (match (ofSource "fn() \x7b 1").expression with
    | .ok _ t _ => some (t.depth, t.kind?)
    | .fail _ _ _ => none) = some (1, some .eof) := by decide +kernel

end Scriptlet.Grammar
