import Scriptlet.Proofs.Reading

/-! # Braces between the ends of a phrase

Within a phrase, every closing brace closes one that the phrase has opened. The number of open
braces never falls below what it was in front of the phrase, and behind the phrase it is the same
again, unless the input has ended within a block.
-/

namespace Scriptlet.Grammar

open Cursor Phrase

namespace Cursor

/-- Steps over tokens in front of the end of the input. A closing brace is passed only where more
than `least` braces are open. -/
inductive Stays (least : Nat) : Cursor → Cursor → Prop
  | refl {s} : Stays least s s
  | step {s t u token} : s.next? = some (token, t) → token.kind ≠ .eof →
      (token.kind = .rightBrace → least < s.depth) → Stays least t u → Stays least s u

theorem Takes.not_atEnd {kind : Token.Kind} {s t : Cursor} {token : Token}
    (h : s.Takes kind token t) (heof : kind ≠ .eof) : ¬s.atEnd = true := by
  simp [atEnd, kind?, peek?_of_next? h.next?_eq, h.kind_eq, heof]

theorem skip_of_atEnd {s : Cursor} (h : s.atEnd = true) : s.skip .semicolon = s := by
  rcases s.skip_cases .semicolon with hsame | ⟨token, htakes⟩
  · exact hsame
  · exact absurd h (htakes.not_atEnd (by decide))

namespace Stays

variable {least less : Nat} {s t u : Cursor} {kind : Token.Kind} {token : Token}

theorem trans (h : Stays least s t) (h' : Stays least t u) : Stays least s u := by
  induction h with
  | refl => exact h'
  | step hnext heof hbrace _ ih => exact .step hnext heof hbrace (ih h')

theorem mono (h : Stays least s t) (hle : less ≤ least) : Stays less s t := by
  induction h with
  | refl => exact .refl
  | step hnext heof hbrace _ ih =>
    exact .step hnext heof (fun hkind => Nat.lt_of_le_of_lt hle (hbrace hkind)) ih

theorem of_takes (h : s.Takes kind token t) (heof : kind ≠ .eof)
    (hbrace : kind = .rightBrace → least < s.depth) : Stays least s t :=
  .step h.next?_eq (h.kind_eq ▸ heof) (h.kind_eq ▸ hbrace) .refl

theorem eq_of_atEnd (h : Stays least s t) (hend : s.atEnd = true) : t = s := by
  cases h with
  | refl => rfl
  | step hnext heof =>
    simp [atEnd, kind?, peek?_of_next? hnext, heof] at hend

theorem le_depth (h : Stays least s t) (hs : least ≤ s.depth) : least ≤ t.depth := by
  induction h with
  | refl => exact hs
  | @step s t _ token hnext _ hbrace _ ih =>
    apply ih
    rw [(next?_eq_some_iff.mp hnext).2]
    cases hkind : token.kind with
    | rightBrace => exact Nat.le_sub_one_of_lt (hbrace hkind)
    | leftBrace => exact Nat.le_succ_of_le hs
    | _ => exact hs

/-- No closing brace is lost count of: as many braces are opened on the way as are closed on it or
still open behind it. -/
theorem count_eq (h : Stays least s t) : ∃ taken, s.tokens = taken ++ t.tokens ∧
    s.depth + taken.countP (·.kind = .leftBrace)
      = t.depth + taken.countP (·.kind = .rightBrace) := by
  induction h with
  | refl => exact ⟨[], rfl, rfl⟩
  | @step s t _ token hnext _ hbrace _ ih =>
    obtain ⟨taken, htokens, hcount⟩ := ih
    obtain ⟨hhead, hdepth⟩ := next?_eq_some_iff.mp hnext
    have hstep : s.depth + (if token.kind = .leftBrace then 1 else 0)
        = t.depth + (if token.kind = .rightBrace then 1 else 0) := by
      rw [hdepth]
      cases hkind : token.kind with
      | rightBrace => exact (Nat.sub_add_cancel (Nat.one_le_of_lt (hbrace hkind))).symm
      | _ => rfl
    refine ⟨token :: taken, ?_, ?_⟩
    · rw [hhead, htokens, List.cons_append]
    · simp only [List.countP_cons, decide_eq_true_eq]
      omega

end Stays

/-- From one cursor to another, this many braces more are closed than are opened, and never more on
the way. Where the input has ended before, some may not be closed. -/
structure Closes (count : Nat) (s t : Cursor) : Prop where
  stays : Stays (s.depth - count) s t
  depth : t.depth + count = s.depth ∨ t.atEnd = true

namespace Closes

variable {count : Nat} {s t u : Cursor} {kind : Token.Kind} {token : Token}

theorem refl (s : Cursor) : Closes 0 s s :=
  ⟨.refl, Or.inl rfl⟩

theorem le_depth (h : Closes 0 s t) : s.depth ≤ t.depth :=
  h.stays.le_depth (Nat.le_refl _)

theorem andThen (h : Closes 0 s t) (h' : Closes count t u) : Closes count s u := by
  refine ⟨?_, ?_⟩
  · have hless := Nat.sub_le_sub_right h.le_depth count
    exact (h.stays.mono (Nat.sub_le _ _)).trans (h'.stays.mono hless)
  · rcases h.depth with hdepth | hend
    · exact hdepth ▸ h'.depth
    · rw [h'.stays.eq_of_atEnd hend]
      exact Or.inr hend

theorem of_takes (h : s.Takes kind token t) (hkind : kind ∉ [.eof, .leftBrace, .rightBrace]) :
    Closes 0 s t := by
  simp only [List.mem_cons, List.not_mem_nil, or_false, not_or] at hkind
  obtain ⟨heof, hopen, hclose⟩ := hkind
  refine ⟨.of_takes h heof fun heq => absurd heq hclose, Or.inl ?_⟩
  rw [h.depth_eq]
  cases kind <;> first | rfl | contradiction

theorem of_rightBrace (h : s.Takes .rightBrace token t) (hs : 1 ≤ s.depth) : Closes 1 s t := by
  have hdepth : t.depth = s.depth - 1 := h.depth_eq
  refine ⟨.of_takes h (by decide) fun _ => Nat.sub_one_lt_of_le hs (Nat.le_refl _), Or.inl ?_⟩
  rw [hdepth]
  exact Nat.sub_add_cancel hs

/-- What follows an opening brace closes it. -/
theorem of_leftBrace (h : s.Takes .leftBrace token t) (h' : 1 ≤ t.depth → Closes 1 t u) :
    Closes 0 s u := by
  have hdepth : t.depth = s.depth + 1 := h.depth_eq
  obtain ⟨hstays, hclosed⟩ := h' (hdepth ▸ Nat.succ_le_succ (Nat.zero_le _))
  rw [hdepth] at hstays hclosed
  refine ⟨(Stays.of_takes h (by decide) nofun).trans hstays, ?_⟩
  exact hclosed.imp_left Nat.succ.inj

theorem skip (s : Cursor) : Closes 0 s (s.skip .semicolon) := by
  rcases s.skip_cases .semicolon with hsame | ⟨token, htakes⟩
  · rw [hsame]
    exact refl s
  · exact of_takes htakes (by decide)

theorem of_closer (hclosing : kind ∈ closers) (h : s.Takes kind token t) (parts : List Item)
    (hle : (items kind parts).closes ≤ s.depth) : Closes (items kind parts).closes s t := by
  by_cases hbrace : kind = .rightBrace
  · subst hbrace
    exact of_rightBrace h hle
  · have hzero : (items kind parts).closes = 0 := by cases kind <;> first | rfl | contradiction
    rw [hzero]
    refine of_takes h ?_
    cases kind <;> first | decide | contradiction

end Closes

end Cursor

/-! ### Phrases -/

open Closes in
/-- Between its ends a phrase closes the braces that it opened, and those that it is said to close
if as many are open. -/
theorem Reads.closes {s t : Cursor} {phrase : Phrase} (h : Reads s phrase t)
    (hle : phrase.closes ≤ s.depth) : Closes phrase.closes s t := by
  induction h with
  | int h _ | name h | string h | trueWord h | falseWord h | binder h | leave h _ =>
    exact of_takes h (by decide)
  | @unary _ _ _ _ op _ h _ hoperand =>
    have hop : op.kind ∉ [.eof, .leftBrace, .rightBrace] := by cases op <;> decide
    exact (of_takes h hop).andThen (hoperand (Nat.zero_le _))
  | group hopening _ hclosing hinner =>
    exact (of_takes hopening (by decide)).andThen
      ((hinner (Nat.zero_le _)).andThen (of_takes hclosing (by decide)))
  | array htoken _ helements =>
    exact (of_takes htoken (by decide)).andThen (helements (Nat.zero_le _))
  | map htoken _ hentries => exact of_leftBrace htoken hentries
  | branch htoken hopening _ hclosing _ hcondition hconsequence =>
    exact (of_takes htoken (by decide)).andThen ((of_takes hopening (by decide)).andThen
      ((hcondition (Nat.zero_le _)).andThen ((of_takes hclosing (by decide)).andThen
        (hconsequence (Nat.zero_le _)))))
  | branchElse htoken hopening _ hclosing _ hword _ hcondition hconsequence halternative =>
    exact (of_takes htoken (by decide)).andThen ((of_takes hopening (by decide)).andThen
      ((hcondition (Nat.zero_le _)).andThen ((of_takes hclosing (by decide)).andThen
        ((hconsequence (Nat.zero_le _)).andThen ((of_takes hword (by decide)).andThen
          (halternative (Nat.zero_le _)))))))
  | function htoken hopening _ _ hparameters hbody =>
    exact (of_takes htoken (by decide)).andThen ((of_takes hopening (by decide)).andThen
      ((hparameters (Nat.zero_le _)).andThen (hbody (Nat.zero_le _))))
  | @binary _ _ _ _ _ kind _ _ _ _ htoken hop _ hlhs hrhs =>
    have hkind : kind ∉ [.eof, .leftBrace, .rightBrace] := by
      cases kind <;> first | decide | cases hop
    exact (hlhs (Nat.zero_le _)).andThen
      ((of_takes htoken hkind).andThen (hrhs (Nat.zero_le _)))
  | call _ htoken _ hcallee harguments =>
    exact (hcallee (Nat.zero_le _)).andThen
      ((of_takes htoken (by decide)).andThen (harguments (Nat.zero_le _)))
  | index _ htoken _ hclosing hcollection hposition =>
    exact (hcollection (Nat.zero_le _)).andThen ((of_takes htoken (by decide)).andThen
      ((hposition (Nat.zero_le _)).andThen (of_takes hclosing (by decide))))
  | entry _ hcolon _ hkey hvalue =>
    exact (hkey (Nat.zero_le _)).andThen
      ((of_takes hcolon (by decide)).andThen (hvalue (Nat.zero_le _)))
  | noItems hclosing h => exact of_closer hclosing h [] hle
  | lastItem hclosing _ h hfirst =>
    have hfront := hfirst (Nat.zero_le _)
    exact hfront.andThen (of_closer hclosing h _ (Nat.le_trans hle hfront.le_depth))
  | moreItems _ hcomma _ hfirst hrest =>
    have hfront := (hfirst (Nat.zero_le _)).andThen (of_takes hcomma (by decide))
    have hbehind := Nat.le_trans hle hfront.le_depth
    rw [closes_items _ _ (_ :: _)] at hbehind ⊢
    exact hfront.andThen (hrest hbehind)
  | bind htoken hname hsign _ hvalue =>
    exact (of_takes htoken (by decide)).andThen ((of_takes hname (by decide)).andThen
      ((of_takes hsign (by decide)).andThen (hvalue (Nat.zero_le _))))
  | leaveWith h _ hvalue => exact (of_takes h (by decide)).andThen (hvalue (Nat.zero_le _))
  | exprStmt _ _ hvalue => exact hvalue hle
  | bodyClosed h => exact of_rightBrace h hle
  | bodyEnded hend => exact ⟨.refl, Or.inr hend⟩
  | bodyMore _ _ hfirst hrest =>
    have hfront := (hfirst (Nat.zero_le _)).andThen (Closes.skip _)
    exact hfront.andThen (hrest (Nat.le_trans hle hfront.le_depth))
  | block htoken _ hbody => exact of_leftBrace htoken hbody

end Scriptlet.Grammar
