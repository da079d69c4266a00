import MiniPascal.Proofs.Acceptance

/-!
# What a check goes on with

Behind what has been derived there may come other tokens than the grammar allows. This module says
when a check does not mind: when it goes along the derivation all the same, and stops where that
ends.

* `goesOn` — the kinds that a phrase goes on with where it could also end: in front of such a token
  a check does not stop. A table, as `first` and `follow` are.
* `Alike` — two lists of tokens between which a check that looks ahead sees no difference.

**Theorem (`Derivation.Taken.exchange`).** The tokens behind a derivation can be exchanged for
others that are alike, or for others that the derivation does not go on with.
-/

namespace MiniPascal

open Grammar

/-! ## Going on -/

namespace Grammar

/-- The kinds that an expression goes on with. -/
def expressionGoesOn (d : Dialect) : List Kind :=
  first d .moreFactors ++ first d .moreTerms ++ first d .relationPart

/-- The kinds that a command goes on with. -/
def commandGoesOn (d : Dialect) : List Kind :=
  expressionGoesOn d ++ first d .argumentsPart ++ first d .elsePart

/-- The kinds that a phrase goes on with where it could also end. -/
def goesOn (d : Dialect) : Phrase → List Kind
  | .varDeclaration | .varGroups => first d .varGroups
  | .moreVariables => first d .moreVariables
  | .procedures => first d .procedures
  | .formalsPart => first d .formalsPart
  | .moreSections => first d .moreSections
  | .procedureCall | .argumentsPart => first d .argumentsPart
  | .term | .moreFactors => first d .moreFactors
  | .simpleExpression | .moreTerms => first d .moreFactors ++ first d .moreTerms
  | .expression | .relationPart | .assignment => expressionGoesOn d
  | .expressionList | .moreExpressions => expressionGoesOn d ++ first d .moreExpressions
  | .command | .conditional | .elsePart | .repetition => commandGoesOn d
  | .moreCommands => commandGoesOn d ++ first d .moreCommands
  | _ => []

/-- The kinds that a sequence of symbols goes on with. -/
def goesOnBehind (d : Dialect) : List Symbol → List Kind
  | [] => []
  | .token _ :: ss => goesOnBehind d ss
  | .phrase p :: ss => (if ss.all Symbol.nullable then goesOn d p else []) ++ goesOnBehind d ss

/-- The table is closed under the rules. -/
theorem goesOn_parts (d : Dialect) (p : Phrase) :
    (∀ parts ∈ productions d p, ∀ k ∈ goesOnBehind d parts, k ∈ goesOn d p) ∧
      (p.nullable → ∀ k ∈ first d p, k ∈ goesOn d p) := by
  cases d <;> cases p <;> decide

/-- A phrase is empty only by its empty alternative. -/
theorem eq_nil_of_nullable (d : Dialect) (p : Phrase) :
    ∀ parts ∈ productions d p, parts.all Symbol.nullable → parts = [] := by
  cases d <;> cases p <;> decide

theorem annotate_nil {p : Phrase} (hp : p.nullable) (c : Kind) : annotate p c [] = [] := by
  cases p <;> first | rfl | cases hp

end Grammar

/-! ## Tokens that are alike -/

/-- A check sees no difference between the tokens `ks` and `ks'`. It looks at the first of them, and
where it has to choose between an assignment and a call also for an assignment sign behind. -/
structure Alike (d : Dialect) (ks ks' : List Kind) : Prop where
  first : front ks = front ks'
  second : d.hasProcedures → (front ks.tail = .assign ↔ front ks'.tail = .assign)

section

variable {d : Dialect} {p : Phrase} {parts ss : List Symbol} {ks ks' more more' : List Kind}

theorem Alike.cons (h : d.hasProcedures → (front more = .assign ↔ front more' = .assign))
    (k : Kind) : Alike d (k :: more) (k :: more') :=
  ⟨rfl, h⟩

theorem Alike.append (h : Alike d more more') (ks : List Kind) :
    Alike d (ks ++ more) (ks ++ more') := by
  induction ks with
  | nil => exact h
  | cons k ks ih =>
    exact .cons (fun _ => iff_of_eq (congrArg (· = Kind.assign) ih.first)) k

theorem Alike.append_of_ne (h : d.hasProcedures → (front more = .assign ↔ front more' = .assign))
    (nonempty : ks ≠ []) : Alike d (ks ++ more) (ks ++ more') := by
  cases ks with
  | nil => exact absurd rfl nonempty
  | cons k ks =>
    refine .cons ?_ k
    cases ks with
    | nil => exact h
    | cons k' ks => exact fun _ => Iff.rfl

/-- Where procedures cannot be called, the second token does not matter. -/
theorem Grammar.expand_eq_of_not_hasProcedures (h : ¬d.hasProcedures) (p : Phrase)
    (c next next' : Kind) : expand d p c next = expand d p c next' := by
  cases p <;> try rfl
  simp only [expand, commandSteps, eq_false_of_ne_true h]
  rfl

/-- In front of tokens that are alike a check takes the same alternative. -/
theorem Grammar.Takes.of_alike (takes : Takes d p parts ks) (h : Alike d ks ks') :
    Takes d p parts ks' := by
  have same : expand d p (front ks) (front ks'.tail) = expand d p (front ks) (front ks.tail) := by
    by_cases calls : d.hasProcedures
    · have next := propext (h.second calls)
      rw [expand_next d p _ (front ks'.tail), expand_next d p _ (front ks.tail)]
      simp only [next]
    · exact expand_eq_of_not_hasProcedures calls p _ _ _
  unfold Takes at takes ⊢
  rw [← h.first, same]
  exact takes

/-- A check takes a phrase for empty in front of what the phrase does not go on with. -/
theorem Grammar.Takes.of_empty (rule : parts ∈ productions d p) (empty : parts.all Symbol.nullable)
    (stops : front ks ∉ goesOn d p) : Takes d p parts ks := by
  have nullable : p.nullable := (starts_parts d p parts rule).2 empty
  obtain rfl := eq_nil_of_nullable d p parts rule empty
  have notFirst : front ks ∉ first d p := fun hk => stops ((goesOn_parts d p).2 nullable _ hk)
  unfold Takes
  rw [List.map_nil, annotate_nil nullable]
  exact expand_eq_nil nullable notFirst _

/-! ## Exchange -/

/-- **What a check does not go on with does not matter.** -/
theorem Derivation.Taken.exchange {t : Derivation d ss} (taken : t.Taken more)
    (next : d.hasProcedures → (front more = .assign ↔ front more' = .assign))
    (stops : Alike d more more' ∨ front more' ∉ goesOnBehind d ss) : t.Taken more' := by
  induction t generalizing more more' with
  | nil => trivial
  | token k rest ih => exact ih taken next stops
  | @phrase p parts ss rule inside rest ihi ihr =>
    obtain ⟨takes, inner, later⟩ := taken
    rw [goesOnBehind, List.mem_append, not_or] at stops
    -- What is behind the phrase itself starts differently only if nothing is derived in between.
    have next' : d.hasProcedures →
        (front (rest.kinds ++ more) = .assign ↔ front (rest.kinds ++ more') = .assign) := by
      cases rest.kinds with
      | nil => exact next
      | cons k ks => exact fun _ => Iff.rfl
    have stops' : Alike d (rest.kinds ++ more) (rest.kinds ++ more') ∨
        front (rest.kinds ++ more') ∉ goesOn d p := by
      by_cases hr : rest.kinds = []
      · rw [hr]
        refine stops.imp_right fun no => ?_
        rw [if_pos (rest.all_nullable hr)] at no
        exact no.1
      · exact .inl (.append_of_ne next hr)
    refine ⟨?_, ihi inner next' ?_, ihr later next (stops.imp_right And.right)⟩
    · by_cases hi : inside.kinds = []
      · rw [hi] at takes ⊢
        rcases stops' with alike | no
        · exact takes.of_alike alike
        · exact .of_empty rule (inside.all_nullable hi) no
      · exact takes.of_alike (.append_of_ne next' hi)
    · exact stops'.imp_right fun no hk => no ((goesOn_parts d p).1 parts rule _ hk)

theorem Derivation.Taken.of_alike {t : Derivation d ss} (taken : t.Taken more)
    (h : Alike d more more') : t.Taken more' :=
  taken.exchange (fun _ => by rw [h.first]) (.inl h)

/-- Of two derivations side by side a check takes the alternatives of both. -/
theorem Derivation.taken_append {ss' : List Symbol} {t : Derivation d ss} {u : Derivation d ss'} :
    (t.append u).Taken more ↔ t.Taken (u.kinds ++ more) ∧ u.Taken more := by
  induction t with
  | nil => exact (iff_of_eq (true_and _)).symm
  | token k rest ih => exact ih
  | phrase p rule inside rest _ ih =>
    simp only [append, Taken, ih, kinds_append, List.append_assoc, and_assoc]

end

end MiniPascal
