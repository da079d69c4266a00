import MiniPascal.Proofs.Lookahead

/-!
# An ELSE that two commands could take

The grammar is ambiguous: behind nested conditional commands an ELSE can belong to any of them. The
language has a rule for it, and a check obeys the rule without knowing of it, by taking an ELSE
wherever it can. Here it is shown that nothing is lost.

**Theorem (`exists_alternative`).** What is derived from a phrase and what is behind it can be
derived by the alternative that a check takes.

**Theorem (`Derivation.exists_elsesNearest`).** What has a derivation has one in which each ELSE
belongs to the nearest IF. So the rule excludes no sentence.

Both move an ELSE part from an outer command into an inner one, which had none; the tokens stay the
same (`Derivation.exists_shift`).
-/

namespace MiniPascal

open Grammar

variable {d : Dialect} {p : Phrase} {ss ss' : List Symbol} {ks : List Kind}

/-! ## Moving an ELSE part -/

/-- The alternatives of a phrase that start with ELSE. -/
theorem elsePart_of_kwElse_mem (d : Dialect) (p : Phrase) :
    ∀ parts ∈ productions d p, .kwElse ∈ starts d [] parts →
      p = .elsePart ∧ parts = [.token .kwElse, .phrase .command] := by
  cases d <;> cases p <;> decide

/-- An ELSE is expected only by the steps that have seen it. -/
theorem kwElse_not_mem_tail (d : Dialect) (p : Phrase) :
    ∀ parts ∈ productions d p, .token .kwElse ∉ parts.tail := by
  cases d <;> cases p <;> decide

theorem mem_tail_append {α : Type} {x : α} {l l' : List α} (h : x ∈ (l ++ l').tail) :
    x ∈ l.tail ∨ x ∈ l' := by
  cases l with
  | nil => exact .inr (List.mem_of_mem_tail h)
  | cons y l => exact List.mem_append.1 h

/-- No ELSE is expected unseen in an alternative and the symbols behind it. -/
theorem kwElse_not_mem_parts {parts : List Symbol} (rule : parts ∈ productions d p)
    (hs : .token .kwElse ∉ ss) : .token .kwElse ∉ (parts ++ ss).tail := by
  intro hm
  rcases mem_tail_append hm with hm | hm
  · exact kwElse_not_mem_tail d p parts rule hm
  · exact hs hm

namespace Derivation

/-- An ELSE in front of some symbols belongs to an ELSE part among them. The part can be taken out:
what it was a part of then has none. -/
theorem exists_shift (t : Derivation d ss) (h : t.kinds = .kwElse :: ks)
    (hs : .token .kwElse ∉ ss) :
    ∃ (taken : Derivation d [.token .kwElse, .phrase .command]) (others : Derivation d ss),
      taken.kinds ++ others.kinds = t.kinds ∧ taken.size + others.size = t.size := by
  induction t with
  | nil => cases h
  | token k rest =>
    obtain rfl := (List.cons.inj h).1
    exact absurd List.mem_cons_self hs
  | @phrase p parts ss rule inside rest _ ih =>
    cases hi : inside.kinds with
    | nil =>
      rw [kinds, hi] at h
      obtain ⟨taken, others, same, size_eq⟩ := ih h (fun hm => hs (List.mem_cons_of_mem _ hm))
      refine ⟨taken, phrase p rule inside others, ?_, ?_⟩
      · simp only [kinds, hi, List.nil_append, same]
      · simp only [size]
        omega
    | cons k inner =>
      rw [kinds, hi] at h
      obtain rfl := (List.cons.inj h).1
      have starting := inside.front_mem_starts (by simp [hi])
      rw [hi, front_cons] at starting
      obtain ⟨rfl, rfl⟩ := elsePart_of_kwElse_mem d p parts rule starting
      have empty : [] ∈ productions d .elsePart := List.mem_cons_self
      refine ⟨inside, phrase .elsePart empty nil rest, rfl, ?_⟩
      simp only [size]
      omega

/-- **The right alternative.** A derivation of a phrase and some symbols behind it can be turned
into a smaller one of the alternative that a check takes, with the same symbols behind it. -/
theorem exists_alternative (t : Derivation d (.phrase p :: ss))
    (followed : Followed d Kind.all (.phrase p :: ss)) (hs : .token .kwElse ∉ ss) :
    ∃ parts ∈ productions d p,
      expand d p (front t.kinds) (front t.kinds.tail) =
          annotate p (front t.kinds) (parts.map Symbol.step) ∧
        ∃ t' : Derivation d (parts ++ ss), t'.kinds = t.kinds ∧ t'.size < t.size := by
  cases t with
  | @phrase _ parts _ rule inside rest =>
    have behind : front rest.kinds ∈ follow d p := by
      have end? : front [] ∈ Kind.all := Kind.mem_all _
      have derives : Derives d ss rest.kinds := ⟨rest, rfl⟩
      have starting := derives.front_mem end?
      rw [List.append_nil] at starting
      exact followed.1 _ starting
    by_cases dangling : p = .elsePart ∧ parts = [] ∧ front rest.kinds = .kwElse
    · -- The check takes the ELSE for the part in front.
      obtain ⟨rfl, rfl, hf⟩ := dangling
      have hk : rest.kinds = .kwElse :: rest.kinds.tail := eq_cons_of_front hf (by decide)
      obtain ⟨taken, others, same, size_eq⟩ := rest.exists_shift hk hs
      cases inside
      refine ⟨_, List.mem_cons_of_mem _ List.mem_cons_self, ?_, taken.append others, ?_, ?_⟩
      · rw [kinds, kinds, List.nil_append, hf]
        rfl
      · rw [kinds_append, same]
        rfl
      · rw [size_append, size_eq]
        simp only [size]
        omega
    · have derives : Derives d parts inside.kinds := ⟨inside, rfl⟩
      have steps := expand_eq rule derives behind fun hp empty hf => dangling ⟨hp, empty, hf⟩
      refine ⟨parts, rule, steps, inside.append rest, kinds_append .., ?_⟩
      rw [size_append]
      exact Nat.lt_succ_self _

end Derivation

/-- What is derived from a phrase and some symbols behind it is derived by the alternative that a
check takes. -/
theorem exists_alternative (h : Derives d (.phrase p :: ss) ks)
    (followed : Followed d Kind.all (.phrase p :: ss)) (hs : .token .kwElse ∉ ss) :
    ∃ parts ∈ productions d p,
      expand d p (front ks) (front ks.tail) = annotate p (front ks) (parts.map Symbol.step) ∧
        Derives d (parts ++ ss) ks := by
  obtain ⟨t, rfl⟩ := h
  obtain ⟨parts, rule, steps, t', same, -⟩ := t.exists_alternative followed hs
  exact ⟨parts, rule, steps, t', same⟩

/-! ## Derivations that obey the rule -/

namespace Derivation

/-- Of two derivations side by side that obey the rule, each one does, and the second does not
start with an ELSE that the first would take. -/
theorem elsesNearest_of_append {t₁ : Derivation d ss} {t₂ : Derivation d ss'}
    (h : (t₁.append t₂).ElsesNearest) :
    t₁.ElsesNearest ∧ t₂.ElsesNearest ∧ (t₁.TakesElse → front t₂.kinds ≠ .kwElse) := by
  induction t₁ with
  | nil => exact ⟨trivial, h, nofun⟩
  | token k rest ih => exact ih h
  | phrase p rule inside rest _ ih =>
    obtain ⟨hi, hr, takes⟩ := h
    obtain ⟨h₁, h₂, els⟩ := ih hr
    rw [kinds_append] at takes
    refine ⟨⟨hi, h₁, ?_⟩, h₂, ?_⟩
    · intro ht
      have no := takes ht
      cases hk : rest.kinds with
      | nil => decide
      | cons k ks =>
        rw [hk] at no
        exact no
    · intro ht
      rcases ht with ht | ⟨empty, ht⟩
      · exact els ht
      · have no := takes ht
        rw [empty] at no
        exact no

/-- **The rule excludes no sentence.** The tokens of a derivation have one in which each ELSE
belongs to the nearest IF. -/
theorem exists_elsesNearest (t : Derivation d ss) (followed : Followed d Kind.all ss)
    (hs : .token .kwElse ∉ ss.tail) :
    ∃ t' : Derivation d ss, t'.kinds = t.kinds ∧ t'.ElsesNearest := by
  induction hn : t.size using Nat.strongRecOn generalizing ss with
  | _ n ih =>
    cases ss with
    | nil => exact ⟨t, rfl, by cases t; trivial⟩
    | cons symbol ss =>
      cases symbol with
      | token k =>
        cases t with
        | token k rest =>
          have smaller : rest.size < n := hn ▸ Nat.lt_succ_self _
          obtain ⟨rest', same, h⟩ :=
            ih _ smaller rest followed (fun hm => hs (List.mem_of_mem_tail hm)) rfl
          exact ⟨token k rest', congrArg (k :: ·) same, h⟩
      | phrase p =>
        obtain ⟨parts, rule, steps, flat, same, smaller⟩ := t.exists_alternative followed hs
        obtain ⟨flat', same', h⟩ :=
          ih _ (hn ▸ smaller) flat (followed.of_phrase rule) (kwElse_not_mem_parts rule hs) rfl
        obtain ⟨inside, rest, rfl⟩ := flat'.exists_append
        obtain ⟨hi, hr, els⟩ := elsesNearest_of_append h
        have whole : inside.kinds ++ rest.kinds = t.kinds := by rw [← kinds_append, same', same]
        refine ⟨phrase p rule inside rest, whole, hi, hr, ?_⟩
        intro ht
        rcases ht with ht | ⟨hp, empty⟩
        · exact els ht
        · subst hp
          have no := front_ne_kwElse rule steps empty
          rw [← whole, empty] at no
          exact no

end Derivation

end MiniPascal
