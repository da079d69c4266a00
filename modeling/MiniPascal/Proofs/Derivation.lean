import MiniPascal.Checker.Run

/-!
# Derivation trees

`Grammar.expand` says what a check does next. This module says what a program *is*: the rules of
the language as a grammar without any lookahead (`Grammar.productions`), and the trees that are
built by these rules (`Derivation`).

An optional or a repeated part of a rule is a phrase of its own, with an empty alternative. Outside
of the extended dialect a `var` section has one group, and there are neither declarations nor calls
of procedures.

What a tree is judged by:

* `kinds` — its leaves from left to right, the kinds of the tokens that it stands for.
* `nesting` — how many commands, factors and procedure declarations contain one another.
* `ElsesNearest` — each ELSE belongs to the nearest IF that can take it.
* `traces` — what a check of it should tell on its way.

**Theorem (`exists_derives`).** Every sequence of symbols derives some tokens: no rule of the
grammar is a dead end.
-/

namespace MiniPascal

/-- The kind of the first of some tokens. -/
def front (ks : List Kind) : Kind := ks.headD .endOfText

@[simp] theorem front_nil : front [] = .endOfText := rfl

@[simp] theorem front_cons (k : Kind) (ks : List Kind) : front (k :: ks) = k := rfl

theorem eq_cons_of_front {ks : List Kind} {k : Kind} (h : front ks = k) (hk : k ≠ .endOfText) :
    ks = k :: ks.tail := by
  cases ks with
  | nil => exact absurd h.symm hk
  | cons k' ks => rw [← h]; rfl

theorem front_append {ks : List Kind} (more : List Kind) (h : ks ≠ []) :
    front (ks ++ more) = front ks := by
  cases ks with
  | nil => exact absurd rfl h
  | cons k ks => rfl

/-- A symbol of the grammar. -/
inductive Symbol where
  | token (k : Kind)
  | phrase (p : Phrase)
  deriving DecidableEq, Repr

/-- The phrases that count as levels. -/
def Phrase.opensLevel : Phrase → Bool
  | command | factor | procedureDeclaration => true
  | _ => false

/-- The number of levels that a phrase opens. -/
def Phrase.levels (p : Phrase) : Nat := p.opensLevel.toNat

theorem Phrase.levels_of_opensLevel {p : Phrase} (h : p.opensLevel) : p.levels = 1 := by
  rw [levels, h]
  rfl

theorem Phrase.levels_of_not {p : Phrase} (h : ¬p.opensLevel) : p.levels = 0 := by
  rw [levels, eq_false_of_ne_true h]
  rfl

theorem Phrase.levels_le {p : Phrase} {n : Nat} : p.levels ≤ n ↔ (p.opensLevel → 0 < n) := by
  by_cases h : p.opensLevel
  · rw [levels_of_opensLevel h]
    exact ⟨fun hn _ => hn, fun hn => hn h⟩
  · rw [levels_of_not h]
    exact ⟨fun _ hp => absurd hp h, fun _ => Nat.zero_le n⟩

namespace Grammar

/-- What a phrase may be made of: the alternatives of its rule. -/
def productions (d : Dialect) : Phrase → List (List Symbol)
  | .program =>
    [[.token .kwProgram, .token .identifier, .token .semicolon, .phrase .block, .token .dot]]
  | .block =>
    [[.phrase .varDeclaration, .phrase .procedures, .phrase .compound],
      [.phrase .procedures, .phrase .compound]]
  | .varDeclaration =>
    [[.token .kwVar, .phrase .varList, .token .semicolon, .phrase .varGroups]]
  | .varGroups =>
    [] :: if d.repeatsVarGroups then [[.phrase .varList, .token .semicolon, .phrase .varGroups]]
      else []
  | .varList =>
    [[.phrase .variableName, .phrase .moreVariables, .token .colon, .phrase .type]]
  | .moreVariables => [[], [.token .comma, .phrase .variableName, .phrase .moreVariables]]
  | .type => [[.token .kwInteger], [.token .kwReal], [.token .kwBoolean]]
  | .procedures =>
    [] :: if d.hasProcedures then [[.phrase .procedureDeclaration, .phrase .procedures]] else []
  | .procedureDeclaration =>
    [[.token .kwProcedure, .token .identifier, .phrase .formalsPart, .token .semicolon,
      .phrase .block, .token .semicolon]]
  | .formalsPart => [[], [.phrase .formals]]
  | .formals =>
    [[.token .leftParen, .phrase .formalSection, .phrase .moreSections, .token .rightParen]]
  | .formalSection => [[.token .kwVar, .phrase .varList], [.phrase .varList]]
  | .moreSections => [[], [.token .semicolon, .phrase .formalSection, .phrase .moreSections]]
  | .compound => [[.token .kwBegin, .phrase .command, .phrase .moreCommands, .token .kwEnd]]
  | .moreCommands => [[], [.token .semicolon, .phrase .command, .phrase .moreCommands]]
  | .command =>
    [[.phrase .assignment], [.phrase .compound], [.phrase .conditional], [.phrase .repetition]] ++
      if d.hasProcedures then [[.phrase .procedureCall]] else []
  | .assignment => [[.phrase .variableName, .token .assign, .phrase .expression]]
  | .procedureCall => [[.token .identifier, .phrase .argumentsPart]]
  | .argumentsPart => [[], [.token .leftParen, .phrase .expressionList, .token .rightParen]]
  | .conditional =>
    [[.token .kwIf, .phrase .expression, .token .kwThen, .phrase .command, .phrase .elsePart]]
  | .elsePart => [[], [.token .kwElse, .phrase .command]]
  | .repetition => [[.token .kwWhile, .phrase .expression, .token .kwDo, .phrase .command]]
  | .expression => [[.phrase .simpleExpression, .phrase .relationPart]]
  | .relationPart =>
    [[], [.token .equal, .phrase .simpleExpression], [.token .notEqual, .phrase .simpleExpression],
      [.token .less, .phrase .simpleExpression], [.token .greater, .phrase .simpleExpression]] ++
      if d.hasRelationalPairs then
        [[.token .lessEqual, .phrase .simpleExpression],
          [.token .greaterEqual, .phrase .simpleExpression]]
      else []
  | .simpleExpression =>
    [[.token .plus, .phrase .term, .phrase .moreTerms],
      [.token .minus, .phrase .term, .phrase .moreTerms], [.phrase .term, .phrase .moreTerms]]
  | .moreTerms =>
    [[], [.token .plus, .phrase .term, .phrase .moreTerms],
      [.token .minus, .phrase .term, .phrase .moreTerms],
      [.token .kwOr, .phrase .term, .phrase .moreTerms]]
  | .term => [[.phrase .factor, .phrase .moreFactors]]
  | .moreFactors =>
    [[], [.token .times, .phrase .factor, .phrase .moreFactors],
      [.token .divide, .phrase .factor, .phrase .moreFactors],
      [.token .kwAnd, .phrase .factor, .phrase .moreFactors]]
  | .factor =>
    [[.phrase .variableName], [.token .integerLiteral], [.token .realLiteral],
      [.token .leftParen, .phrase .expression, .token .rightParen],
      [.token .kwNot, .phrase .factor]]
  | .variableName => [[.token .identifier]]
  | .expressionList => [[.phrase .expression, .phrase .moreExpressions]]
  | .moreExpressions => [[], [.token .comma, .phrase .expression, .phrase .moreExpressions]]

end Grammar

/-! ## Trees -/

/-- A derivation of a sequence of symbols: for each phrase of the sequence, one of its alternatives
and a derivation of that. -/
inductive Derivation (d : Dialect) : List Symbol → Type
  | nil : Derivation d []
  | token (k : Kind) {ss : List Symbol} (rest : Derivation d ss) : Derivation d (.token k :: ss)
  | phrase (p : Phrase) {parts ss : List Symbol} (rule : parts ∈ Grammar.productions d p)
      (inside : Derivation d parts) (rest : Derivation d ss) : Derivation d (.phrase p :: ss)

/-- A derivation tree of one phrase. -/
abbrev Tree (d : Dialect) (p : Phrase) : Type := Derivation d [.phrase p]

/-- What is told when a phrase with the tokens `ks` is entered. A further command of a compound
one is told by its separator. -/
def Phrase.tracesBefore (p : Phrase) (ks : List Kind) : List Trace :=
  match p, ks with
  | .compound, _ => [.compoundBegin]
  | .moreCommands, _ :: _ => [.separator]
  | .command, first :: _ => [.command first]
  | .assignment, _ => [.assignment]
  | .expression, _ => [.expression]
  | _, _ => []

/-- What is told when a phrase is left. -/
def Phrase.tracesAfter : Phrase → List Trace
  | .compound => [.compoundEnd]
  | _ => []

theorem Phrase.tracesAfter_of_ne {p : Phrase} (h : p ≠ .compound) : p.tracesAfter = [] := by
  unfold tracesAfter
  split
  · exact absurd rfl h
  · rfl

namespace Derivation

variable {d : Dialect} {ss ss' : List Symbol}

/-- The kinds of the tokens that are derived. -/
def kinds : {ss : List Symbol} → Derivation d ss → List Kind
  | _, nil => []
  | _, token k rest => k :: rest.kinds
  | _, phrase _ _ inside rest => inside.kinds ++ rest.kinds

/-- The largest number of levels that are open one inside another. -/
def nesting : {ss : List Symbol} → Derivation d ss → Nat
  | _, nil => 0
  | _, token _ rest => rest.nesting
  | _, phrase p _ inside rest =>
    max (inside.nesting + p.levels) rest.nesting

/-- The number of symbols in the tree. -/
def size : {ss : List Symbol} → Derivation d ss → Nat
  | _, nil => 0
  | _, token _ rest => rest.size + 1
  | _, phrase _ _ inside rest => inside.size + rest.size + 1

/-- The traces of a walk through the tree from left to right. -/
def traces : {ss : List Symbol} → Derivation d ss → List Trace
  | _, nil => []
  | _, token _ rest => rest.traces
  | _, phrase p _ inside rest =>
    p.tracesBefore inside.kinds ++ inside.traces ++ p.tracesAfter ++ rest.traces

/-- The derived tokens end with a conditional command that has no ELSE part. An ELSE behind them
would be taken for its ELSE. -/
def TakesElse : {ss : List Symbol} → Derivation d ss → Prop
  | _, nil => False
  | _, token _ rest => rest.TakesElse
  | _, phrase p _ inside rest =>
    rest.TakesElse ∨
      rest.kinds = [] ∧ (inside.TakesElse ∨ p = .elsePart ∧ inside.kinds = [])

/-- What would take an ELSE is not followed by an ELSE that belongs to something else. -/
def ElsesNearest : {ss : List Symbol} → Derivation d ss → Prop
  | _, nil => True
  | _, token _ rest => rest.ElsesNearest
  | _, phrase p _ inside rest =>
    inside.ElsesNearest ∧ rest.ElsesNearest ∧
      (inside.TakesElse ∨ p = .elsePart ∧ inside.kinds = [] → front rest.kinds ≠ .kwElse)

/-- Two derivations side by side. -/
def append : {ss : List Symbol} → Derivation d ss → Derivation d ss' → Derivation d (ss ++ ss')
  | _, nil, more => more
  | _, token k rest, more => token k (rest.append more)
  | _, phrase p rule inside rest, more => phrase p rule inside (rest.append more)

@[simp] theorem kinds_append (t : Derivation d ss) (more : Derivation d ss') :
    (t.append more).kinds = t.kinds ++ more.kinds := by
  induction t with
  | nil => rfl
  | token k rest ih => exact congrArg (k :: ·) ih
  | phrase p rule inside rest _ ih => simp [append, kinds, ih]

@[simp] theorem size_append (t : Derivation d ss) (more : Derivation d ss') :
    (t.append more).size = t.size + more.size := by
  induction t with
  | nil => exact (Nat.zero_add _).symm
  | token k rest ih =>
    simp only [append, size, ih]
    omega
  | phrase p rule inside rest _ ih =>
    simp only [append, size, ih]
    omega

@[simp] theorem nesting_append (t : Derivation d ss) (more : Derivation d ss') :
    (t.append more).nesting = max t.nesting more.nesting := by
  induction t with
  | nil => exact (Nat.zero_max _).symm
  | token k rest ih => exact ih
  | phrase p rule inside rest _ ih => simp [append, nesting, ih, Nat.max_assoc]

@[simp] theorem traces_append (t : Derivation d ss) (more : Derivation d ss') :
    (t.append more).traces = t.traces ++ more.traces := by
  induction t with
  | nil => rfl
  | token k rest ih => exact ih
  | phrase p rule inside rest _ ih => simp [append, traces, ih]

/-- A derivation of two sequences of symbols is made of one for each. -/
theorem exists_append (t : Derivation d (ss ++ ss')) :
    ∃ (t₁ : Derivation d ss) (t₂ : Derivation d ss'), t = t₁.append t₂ := by
  induction ss with
  | nil => exact ⟨nil, t, rfl⟩
  | cons symbol ss ih =>
    cases t with
    | token k rest =>
      obtain ⟨t₁, t₂, h⟩ := ih rest
      exact ⟨token k t₁, t₂, congrArg (token k) h⟩
    | phrase p rule inside rest =>
      obtain ⟨t₁, t₂, h⟩ := ih rest
      exact ⟨phrase p rule inside t₁, t₂, congrArg (phrase p rule inside) h⟩

/-- What holds of some symbols, and of the parts of a phrase if it holds of the phrase, holds of all
the tokens that are derived. -/
theorem forall_mem_kinds {P : Symbol → Prop}
    (closed : ∀ p, P (.phrase p) → ∀ parts ∈ Grammar.productions d p, ∀ symbol ∈ parts, P symbol)
    (t : Derivation d ss) (h : ∀ symbol ∈ ss, P symbol) : ∀ k ∈ t.kinds, P (.token k) := by
  induction t with
  | nil => exact fun _ hk => absurd hk List.not_mem_nil
  | token k rest ih =>
    obtain ⟨here, others⟩ := List.forall_mem_cons.1 h
    exact List.forall_mem_cons.2 ⟨here, ih others⟩
  | phrase p rule inside rest ihi ihr =>
    obtain ⟨here, others⟩ := List.forall_mem_cons.1 h
    exact List.forall_mem_append.2 ⟨ihi (closed p here _ rule), ihr others⟩

instance decidableTakesElse : {ss : List Symbol} → (t : Derivation d ss) → Decidable t.TakesElse
  | _, nil => .isFalse id
  | _, token _ rest => decidableTakesElse rest
  | _, phrase _ _ inside rest =>
    have := decidableTakesElse inside
    have := decidableTakesElse rest
    inferInstanceAs (Decidable (_ ∨ _ ∧ (_ ∨ _ ∧ _)))

instance decidableElsesNearest :
    {ss : List Symbol} → (t : Derivation d ss) → Decidable t.ElsesNearest
  | _, nil => .isTrue trivial
  | _, token _ rest => decidableElsesNearest rest
  | _, phrase _ _ inside rest =>
    have := decidableElsesNearest inside
    have := decidableElsesNearest rest
    inferInstanceAs (Decidable (_ ∧ _ ∧ (_ ∨ _ ∧ _ → _)))

end Derivation

/-! ## Derived tokens -/

/-- Tokens of the kinds `ks` are derived from the symbols. -/
def Derives (d : Dialect) (ss : List Symbol) (ks : List Kind) : Prop :=
  ∃ t : Derivation d ss, t.kinds = ks

section

variable {d : Dialect} {ss ss' : List Symbol} {ks : List Kind}

@[simp] theorem derives_nil : Derives d [] ks ↔ ks = [] := by
  constructor
  · intro ⟨t, ht⟩
    cases t
    exact ht.symm
  · intro hk
    exact ⟨.nil, hk.symm⟩

theorem derives_token {k : Kind} :
    Derives d (.token k :: ss) ks ↔ ∃ more, ks = k :: more ∧ Derives d ss more := by
  constructor
  · intro ⟨t, ht⟩
    cases t with
    | token k rest => exact ⟨rest.kinds, ht.symm, rest, rfl⟩
  · intro ⟨more, hk, rest, hr⟩
    subst hk hr
    exact ⟨.token k rest, rfl⟩

theorem derives_phrase {p : Phrase} :
    Derives d (.phrase p :: ss) ks ↔
      ∃ parts ∈ Grammar.productions d p, ∃ front back,
        ks = front ++ back ∧ Derives d parts front ∧ Derives d ss back := by
  constructor
  · intro ⟨t, ht⟩
    cases t with
    | phrase p rule inside rest =>
      exact ⟨_, rule, inside.kinds, rest.kinds, ht.symm, ⟨inside, rfl⟩, rest, rfl⟩
  · intro ⟨parts, rule, front, back, hk, ⟨inside, hi⟩, rest, hr⟩
    subst hk hi hr
    exact ⟨.phrase p rule inside rest, rfl⟩

theorem derives_append :
    Derives d (ss ++ ss') ks ↔
      ∃ front back, ks = front ++ back ∧ Derives d ss front ∧ Derives d ss' back := by
  constructor
  · intro ⟨t, ht⟩
    obtain ⟨t₁, t₂, rfl⟩ := t.exists_append
    rw [Derivation.kinds_append] at ht
    exact ⟨t₁.kinds, t₂.kinds, ht.symm, ⟨t₁, rfl⟩, t₂, rfl⟩
  · intro ⟨front, back, hk, ⟨t₁, h₁⟩, t₂, h₂⟩
    subst hk h₁ h₂
    exact ⟨t₁.append t₂, Derivation.kinds_append t₁ t₂⟩

/-- Replacing the first phrase by one of its alternatives derives no other tokens. -/
theorem Derives.of_parts {p : Phrase} {parts : List Symbol}
    (rule : parts ∈ Grammar.productions d p) (h : Derives d (parts ++ ss) ks) :
    Derives d (.phrase p :: ss) ks := by
  obtain ⟨front, back, rfl, hf, hb⟩ := derives_append.1 h
  exact derives_phrase.2 ⟨parts, rule, front, back, rfl, hf, hb⟩

end

/-! ## No dead ends -/

namespace Grammar

/-- Every phrase has an alternative whose phrases weigh less. -/
theorem exists_lighter (d : Dialect) (p : Phrase) :
    ∃ parts ∈ productions d p, ∀ q, .phrase q ∈ parts → q.weight < p.weight := by
  have table : ∀ d ∈ Dialect.all, ∃ parts ∈ productions d p, parts.all fun
      | .phrase q => q.weight < p.weight
      | .token _ => true := by
    cases p <;> decide
  obtain ⟨parts, rule, light⟩ := table d (by cases d <;> decide)
  refine ⟨parts, rule, ?_⟩
  intro q hq
  simpa using List.all_eq_true.1 light _ hq

end Grammar

/-- If the phrases among some symbols derive something, so do the symbols. -/
theorem exists_derives_of_phrases {d : Dialect} {ss : List Symbol}
    (h : ∀ p, .phrase p ∈ ss → ∃ ks, Derives d [.phrase p] ks) : ∃ ks, Derives d ss ks := by
  induction ss with
  | nil => exact ⟨[], derives_nil.2 rfl⟩
  | cons s ss ih =>
    obtain ⟨ks, hks⟩ := ih fun p hp => h p (List.mem_cons_of_mem s hp)
    cases s with
    | token k => exact ⟨k :: ks, derives_token.2 ⟨ks, rfl, hks⟩⟩
    | phrase p =>
      obtain ⟨front, hf⟩ := h p List.mem_cons_self
      exact ⟨front ++ ks, derives_append.2 ⟨front, ks, rfl, hf, hks⟩⟩

theorem exists_derives_phrase (d : Dialect) (p : Phrase) : ∃ ks, Derives d [.phrase p] ks := by
  induction h : p.weight using Nat.strongRecOn generalizing p with
  | _ w ih =>
    obtain ⟨parts, rule, light⟩ := Grammar.exists_lighter d p
    obtain ⟨ks, hks⟩ := exists_derives_of_phrases fun q hq => ih _ (h ▸ light q hq) q rfl
    exact ⟨ks, Derives.of_parts rule (by simpa using hks)⟩

/-- **No dead ends.** Every sequence of symbols derives some tokens. -/
theorem exists_derives (d : Dialect) (ss : List Symbol) : ∃ ks, Derives d ss ks :=
  exists_derives_of_phrases fun p _ => exists_derives_phrase d p

end MiniPascal
