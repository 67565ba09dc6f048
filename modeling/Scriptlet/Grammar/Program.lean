import Scriptlet.Grammar.Expression

/-! # Programs

A program is read statement by statement. An error gives up the statement it occurs in, and reading
goes on behind that statement, so that every error is found in one pass.
-/

namespace Scriptlet.Grammar

/-- Every statement that could be read, and every error met on the way. -/
structure Program (α : Type) where
  statements : List (Stmt α)
  errors : List Error

/-- Skips the rest of a statement: past a semicolon outside all braces, or past the brace that closes
the outermost open one and a semicolon right after it. -/
def resume : List Token → Nat → Cursor
  | [], depth => ⟨[], depth⟩
  | token :: rest, depth =>
    let after := token.kind.depthAfter depth
    if token.kind = .eof then ⟨token :: rest, depth⟩
    else if token.kind = .semicolon ∧ after = 0 then ⟨rest, after⟩
    else if token.kind = .rightBrace ∧ after = 0 then Cursor.skip .semicolon ⟨rest, after⟩
    else resume rest after

namespace Cursor

def recover (s : Cursor) : Cursor :=
  resume s.tokens s.depth

theorem size_resume_le (tokens : List Token) (depth : Nat) :
    (resume tokens depth).size ≤ tokens.length := by
  induction tokens generalizing depth with
  | nil => exact Nat.le_refl _
  | cons token rest ih =>
    have hrest : ∀ depth, Cursor.size ⟨rest, depth⟩ = rest.length := fun _ => rfl
    simp only [resume, List.length_cons]
    split
    · exact Nat.le_refl _
    · split
      · rw [hrest]; omega
      · split
        · have := size_skip_le .semicolon ⟨rest, token.kind.depthAfter depth⟩
          rw [hrest] at this
          omega
        · have := ih (token.kind.depthAfter depth)
          omega

theorem size_recover_le (s : Cursor) : s.recover.size ≤ s.size :=
  size_resume_le s.tokens s.depth

theorem size_recover_lt_self {s : Cursor} (h : ¬s.atEnd = true) : s.recover.size < s.size := by
  obtain ⟨tokens, depth⟩ := s
  cases tokens with
  | nil => exact absurd rfl h
  | cons token rest =>
    have hkind : token.kind ≠ .eof := by
      intro heq
      simp [atEnd, kind?, peek?, heq] at h
    have hrest : ∀ depth, Cursor.size ⟨rest, depth⟩ = rest.length := fun _ => rfl
    simp only [recover, resume, if_neg hkind, size, List.length_cons]
    split
    · exact Nat.lt_succ_self _
    · split
      · have := size_skip_le .semicolon ⟨rest, token.kind.depthAfter depth⟩
        simp only [size] at this
        omega
      · have := size_resume_le rest (token.kind.depthAfter depth)
        simp only [size] at this
        omega

/-- A statement that can not be read is left behind. -/
theorem size_recover_lt {s t : Cursor} (h : ¬s.atEnd = true) (within : t = s ∨ t.size < s.size) :
    t.recover.size < s.size := by
  rcases within with rfl | shorter
  · exact size_recover_lt_self h
  · exact Nat.lt_of_le_of_lt (size_recover_le t) shorter

/-- Reads statements to the end of the input. -/
def program (s : Cursor) : Program Token × Cursor :=
  if h : s.atEnd = true then (⟨[], []⟩, s)
  else
    match statement (fun t _ => t.expression) s (Nat.lt_succ_self s.size) with
    | .ok first rest shorter =>
      have := shorter
      let (others, stop) := program rest
      ({ others with statements := first :: others.statements }, stop)
    | .fail error rest within =>
      have := size_recover_lt h within
      let (others, stop) := program rest.recover
      ({ others with errors := error :: others.errors }, stop)
termination_by s.size

end Cursor

namespace Program

def ofSource (source : String) : Program Token :=
  (Cursor.ofSource source).program.1

end Program

end Scriptlet.Grammar
