import Scriptlet.Proofs.Recognition

/-! # Words that tell where they end

Two lists of words stand for the same thing if whatever is written behind them can be told from
them: nothing that follows belongs to the one of them and not to the other. What may not follow is
given by the kinds of words that they could go on with.
-/

namespace Scriptlet.Grammar

open Token (Word)
open List (forall_mem_cons)

/-- The words do not begin with a word of these kinds. -/
def Avoids (kinds : List Token.Kind) (ws : List Word) : Prop :=
  ∀ word ∈ ws.head?, word.1 ∉ kinds

/-- Where neither is followed by a word of these kinds, the two stand for the same thing if what is
written is the same, and end at the same place. -/
def Determines (kinds : List Token.Kind) (ws ws' : List Word) (same : Prop) : Prop :=
  ∀ r r', Avoids kinds r → Avoids kinds r' → ws ++ r = ws' ++ r' → same ∧ r = r'

namespace Determines

variable {kinds inner : List Token.Kind} {ws ws' xs xs' : List Word} {first first' : Word}
  {p q : Prop}

theorem imp (h : Determines kinds ws ws' p) (hpq : p → q) : Determines kinds ws ws' q :=
  fun r r' hr hr' heq => (h r r' hr hr' heq).imp_left hpq

theorem mono (h : Determines inner ws ws' p) (hsub : ∀ kind ∈ inner, kind ∈ kinds) :
    Determines kinds ws ws' p :=
  fun r r' hr hr' => h r r' (fun word hword hmem => hr word hword (hsub _ hmem))
    fun word hword hmem => hr' word hword (hsub _ hmem)

theorem symm (h : Determines kinds ws ws' p) : Determines kinds ws' ws p := by
  intro r r' hr hr' heq
  obtain ⟨hp, hrest⟩ := h r' r hr' hr heq.symm
  exact ⟨hp, hrest.symm⟩

theorem same (ws : List Word) : Determines kinds ws ws True :=
  fun _ _ _ _ heq => ⟨trivial, List.append_cancel_left heq⟩

theorem of_ne (h : first.1 ≠ first'.1) : Determines kinds (first :: ws) (first' :: ws') p :=
  fun _ _ _ _ heq => absurd (congrArg Prod.fst (List.cons.inj heq).1) h

/-- What goes on with a word of these kinds is told apart from what does not. -/
theorem of_mem (h : first.1 ∈ kinds) : Determines kinds [] (first :: ws) p := by
  rintro r r' hr - heq
  obtain rfl : r = first :: ws ++ r' := heq
  exact absurd h (hr first rfl)

theorem word (h : first = first' → Determines kinds ws ws' p) :
    Determines kinds (first :: ws) (first' :: ws') (first = first' ∧ p) := by
  intro r r' hr hr' heq
  obtain ⟨hfirst, heq⟩ := List.cons.inj heq
  obtain ⟨hp, hrest⟩ := h hfirst r r' hr hr' heq
  exact ⟨⟨hfirst, hp⟩, hrest⟩

theorem cons (h : Determines kinds ws ws' p) : Determines kinds (first :: ws) (first :: ws') p :=
  (Determines.word fun _ => h).imp And.right

/-- Two parts one behind the other. -/
theorem append (h : Determines inner ws ws' p) (h' : p → Determines kinds xs xs' q)
    (hxs : ∀ r, Avoids kinds r → Avoids inner (xs ++ r))
    (hxs' : ∀ r, Avoids kinds r → Avoids inner (xs' ++ r)) :
    Determines kinds (ws ++ xs) (ws' ++ xs') (p ∧ q) := by
  intro r r' hr hr' heq
  rw [List.append_assoc, List.append_assoc] at heq
  obtain ⟨hp, heq⟩ := h _ _ (hxs r hr) (hxs' r' hr') heq
  obtain ⟨hq, hrest⟩ := h' hp r r' hr hr' heq
  exact ⟨⟨hp, hq⟩, hrest⟩

/-- A word between two parts, of a kind that the first part does not go on with. -/
theorem append_cons (h : Determines inner ws ws' p)
    (h' : p → Determines kinds (first :: xs) (first' :: xs') q) (hfirst : first.1 ∉ inner)
    (hfirst' : first'.1 ∉ inner) :
    Determines kinds (ws ++ first :: xs) (ws' ++ first' :: xs') (p ∧ q) :=
  h.append h' (fun _ _ _ hword => Option.some.inj hword ▸ hfirst)
    fun _ _ _ hword => Option.some.inj hword ▸ hfirst'

/-- What stands behind the first part tells the two apart. -/
theorem append_of_ne (h : Determines inner ws ws' p) (hne : first.1 ≠ first'.1)
    (hfirst : first.1 ∉ inner) (hfirst' : first'.1 ∉ inner) :
    Determines kinds (ws ++ first :: xs) (ws' ++ first' :: xs') q :=
  (h.append_cons (q := False) (fun _ => .of_ne hne) hfirst hfirst').imp fun hsame => hsame.2.elim

theorem grouped (h : Determines inner ws ws' p) (hinner : .rightParen ∉ inner) :
    Determines kinds (grouped ws) (Grammar.grouped ws') p :=
  (h.append_cons (fun _ => same [Token.Kind.rightParen.word]) hinner hinner).cons.imp And.left

/-- Items with something between them and something else behind the last one. -/
theorem separated {ι γ : Type} {separator closing : Token.Kind} (hne : closing ≠ separator)
    (hinner : separator ∉ inner ∧ closing ∉ inner) {spell : ι → List Word} {f : ι → γ} :
    ∀ {items items' : List ι},
      (∀ item ∈ items, ∀ item' ∈ items',
        Determines inner (spell item) (spell item') (f item = f item')) →
      (∀ item ∈ items, LeadsItem closing (spell item)) →
      (∀ item ∈ items', LeadsItem closing (spell item)) →
      Determines kinds (separator.separated (items.map spell) ++ [closing.word])
        (separator.separated (items'.map spell) ++ [closing.word]) (items.map f = items'.map f)
  | [], [], _, _, _ => (same _).imp fun _ => rfl
  | [], item' :: rest', _, _, hleads' => by
    obtain ⟨first, tail, hspell, hfirst⟩ := hleads' item' List.mem_cons_self
    cases rest' <;> simp only [List.map_cons, hspell] <;> exact .of_ne hfirst.symm
  | item :: rest, [], _, hleads, _ => by
    obtain ⟨first, tail, hspell, hfirst⟩ := hleads item List.mem_cons_self
    cases rest <;> simp only [List.map_cons, hspell] <;> exact .of_ne hfirst
  | item :: rest, item' :: rest', h, hleads, hleads' => by
    have hfirst := h item List.mem_cons_self item' List.mem_cons_self
    have hrest := separated hne hinner
      (fun _ hitem _ hitem' => h _ (List.mem_cons_of_mem _ hitem) _ (List.mem_cons_of_mem _ hitem'))
      (forall_mem_cons.mp hleads).2 (forall_mem_cons.mp hleads').2
    cases rest <;> cases rest' <;>
      simp only [List.map_cons, List.map_nil, Token.Kind.separated_singleton,
        Token.Kind.separated_cons_cons, List.append_assoc, List.cons_append] at hrest ⊢
    · refine (hfirst.append_cons (fun _ => same _) hinner.2 hinner.2).imp ?_
      exact fun hsame => congrArg (· :: _) hsame.1
    · exact hfirst.append_of_ne hne hinner.2 hinner.1
    · exact hfirst.append_of_ne hne.symm hinner.1 hinner.2
    · refine (hfirst.append_cons (fun _ => hrest.cons) hinner.1 hinner.1).imp ?_
      exact fun hsame => congrArg₂ List.cons hsame.1 hsame.2

end Determines

end Scriptlet.Grammar
