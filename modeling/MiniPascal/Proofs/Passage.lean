import MiniPascal.Proofs.Walk

/-!
# Walks, phrase by phrase

A `Walk` takes one step after another. Seen from above it passes one symbol after another: a token
that is there or missing, a phrase by one of its alternatives, a fault, a level that is refused. A
`Passage` is a walk seen so, with one passage inside another where phrases contain one another.

**Theorem (`Walk.passage`).** Every walk over regular steps is a passage.

So what is to be shown of such walks is shown by induction on passages: one case for each of the
ways to pass a symbol.
-/

namespace MiniPascal

open Grammar

/-- The passage of an agenda from the spot `σ` to the spot `σ'` that leaves the lines `ls`. -/
inductive Passage (s : Settings) : List Step → Spot → List Line → Spot → Prop
  | nil (σ : Spot) : Passage s [] σ [] σ
  | mark (t : Trace) {b : List Step} {σ σ' : Spot} {ls : List Line}
      (later : Passage s b σ ls σ') : Passage s (.mark t :: b) σ (.trace t :: ls) σ'
  | finish {b : List Step} {σ σ' : Spot} {ls : List Line}
      (later : Passage s b σ ls σ') : Passage s (.finish :: b) σ ls σ'
  /-- The token is there. -/
  | expect {k : Kind} {b : List Step} {σ σ' : Spot} {ls : List Line} (k_ne : k ≠ .endOfText)
      (here : front σ.ahead = k) (later : Passage s b σ.advance ls σ') :
      Passage s (.expect k :: b) σ ls σ'
  /-- Another token is there. -/
  | missing {k : Kind} {b : List Step} {σ σ' : Spot} {ls : List Line} (k_ne : k ≠ .endOfText)
      (absent : front σ.ahead ≠ k) (later : Passage s b (σ.recover s.recovery) ls σ') :
      Passage s (.expect k :: b) σ (.diagnostic (.expected k (front σ.ahead)) :: ls) σ'
  /-- The phrase needs a level, and there is none left. -/
  | refused {p : Phrase} {b : List Step} {σ σ' : Spot} {ls : List Line} (opens : p.opensLevel)
      (full : ¬σ.depth < s.maxNesting) (later : Passage s b σ.advance ls σ') :
      Passage s (.level p :: b) σ (.diagnostic (.nestingTooDeep s.maxNesting) :: ls) σ'
  /-- The phrase is passed by one of its alternatives. -/
  | alternative {p : Phrase} {parts : List Symbol} {b : List Step} {σ σ' : Spot}
      {behind : List Kind} {ls₁ ls₂ : List Line} (rule : parts ∈ productions s.dialect p)
      (room : p.opensLevel → σ.depth < s.maxNesting)
      (steps : expand s.dialect p (front σ.ahead) (front σ.ahead.tail) =
        annotate p (front σ.ahead) (parts.map Symbol.step))
      (inside : Passage s (annotate p (front σ.ahead) (parts.map Symbol.step))
        ⟨σ.ahead, σ.depth + p.levels⟩ ls₁ ⟨behind, σ.depth + p.levels⟩)
      (later : Passage s b ⟨behind, σ.depth⟩ ls₂ σ') :
      Passage s ((Symbol.phrase p).step :: b) σ (ls₁ ++ ls₂) σ'
  /-- The phrase is none, by the token in front. -/
  | fault {p : Phrase} {e : Diagnostic} {b : List Step} {i : Nat} {σ σ' : Spot}
      {behind : List Kind} {ls₁ ls₂ : List Line}
      (room : p.opensLevel → σ.depth < s.maxNesting)
      (fault : Step.fault? (expand s.dialect p (front σ.ahead) (front σ.ahead.tail)) = some e)
      (inside : Walk s i (expand s.dialect p (front σ.ahead) (front σ.ahead.tail))
        ⟨σ.ahead, σ.depth + p.levels⟩ ls₁ ⟨behind, σ.depth + p.levels⟩)
      (later : Passage s b ⟨behind, σ.depth⟩ ls₂ σ') :
      Passage s ((Symbol.phrase p).step :: b) σ (ls₁ ++ ls₂) σ'

/-- **Every walk over regular steps is a passage.** -/
theorem Walk.passage {s : Settings} {i : Nat} {a : List Step} {σ σ' : Spot} {ls : List Line}
    (walk : Walk s i a σ ls σ') (regular : ∀ step ∈ a, step.regular) : Passage s a σ ls σ' := by
  induction i using Nat.strongRecOn generalizing a σ σ' ls with
  | _ i ih =>
  -- A phrase, on a level of its own or not: its parts and the rest are shorter walks.
  have phrase {p : Phrase} {b : List Step} (walk : Walk s i ((Symbol.phrase p).step :: b) σ ls σ')
      (room : p.opensLevel → σ.depth < s.maxNesting) (regular : ∀ step ∈ b, step.regular) :
      Passage s ((Symbol.phrase p).step :: b) σ ls σ' := by
    obtain ⟨i₁, i₂, ls₁, ls₂, behind, h₁, h₂, rfl, inner, rest⟩ := walk.of_enter room
    have later := ih i₂ h₂ rest regular
    rcases expand_cases s.dialect p (front σ.ahead) (front σ.ahead.tail) with
      ⟨parts, rule, steps⟩ | ⟨e, fault, -⟩
    · rw [steps] at inner
      exact .alternative rule room steps (ih i₁ h₁ inner (regular_annotate rule _)) later
    · exact .fault room fault inner later
  cases a with
  | nil =>
    cases walk
    exact .nil σ
  | cons step b =>
    obtain ⟨here, others⟩ := List.forall_mem_cons.1 regular
    cases step with
    | expect k =>
      have k_ne : k ≠ .endOfText := by simpa [Step.regular] using here
      by_cases hk : front σ.ahead = k
      · obtain ⟨j, ls, rfl, rfl, later⟩ := walk.move (Spot.move_expect hk)
        exact .expect k_ne hk (ih j (Nat.lt_succ_self j) later others)
      · obtain ⟨j, ls, rfl, rfl, later⟩ := walk.move (Spot.move_expect_of_ne hk)
        exact .missing k_ne hk (ih j (Nat.lt_succ_self j) later others)
    | phrase p =>
      have hp : ¬p.opensLevel := by simpa [Step.regular] using here
      have passed := phrase (Symbol.step_of_not hp ▸ walk) (fun h => absurd h hp) others
      rw [Symbol.step_of_not hp] at passed
      exact passed
    | level p =>
      have hp : p.opensLevel := here
      by_cases room : σ.depth < s.maxNesting
      · have passed := phrase (Symbol.step_of_opensLevel hp ▸ walk) (fun _ => room) others
        rw [Symbol.step_of_opensLevel hp] at passed
        exact passed
      · obtain ⟨j, ls, rfl, rfl, later⟩ := walk.move (Spot.move_level_of_not p room)
        exact .refused hp room (ih j (Nat.lt_succ_self j) later others)
    | mark t =>
      cases walk with
      | @cons _ j _ _ _ ls later => exact .mark t (ih j (Nat.lt_succ_self j) later others)
    | finish =>
      cases walk with
      | @cons _ j _ _ _ ls later => exact .finish (ih j (Nat.lt_succ_self j) later others)
    | _ => cases here

namespace Passage

variable {s : Settings} {a : List Step} {σ σ' : Spot} {ls : List Line}

theorem regular (h : Passage s a σ ls σ') : ∀ step ∈ a, step.regular := by
  induction h with
  | nil =>
    intro _ h
    exact absurd h List.not_mem_nil
  | mark t _ ih => exact List.forall_mem_cons.2 ⟨rfl, ih⟩
  | finish _ ih => exact List.forall_mem_cons.2 ⟨rfl, ih⟩
  | expect k_ne _ _ ih => exact List.forall_mem_cons.2 ⟨by simpa [Step.regular] using k_ne, ih⟩
  | missing k_ne _ _ ih => exact List.forall_mem_cons.2 ⟨by simpa [Step.regular] using k_ne, ih⟩
  | refused opens _ _ ih => exact List.forall_mem_cons.2 ⟨opens, ih⟩
  | @alternative p _ _ _ _ _ _ _ _ _ _ _ _ _ ih =>
    exact List.forall_mem_cons.2 ⟨Symbol.regular_step_phrase p, ih⟩
  | @fault p _ _ _ _ _ _ _ _ _ _ _ _ ih =>
    exact List.forall_mem_cons.2 ⟨Symbol.regular_step_phrase p, ih⟩

theorem eq_of_nil (h : Passage s [] σ ls σ') : σ' = σ := by
  generalize ha : ([] : List Step) = a at h
  cases h with
  | nil => rfl
  | _ => cases ha

end Passage

end MiniPascal
