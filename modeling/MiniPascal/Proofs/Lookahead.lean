import MiniPascal.Proofs.Derivation

/-!
# What one token tells

A check decides by the token in front, and in one place by the one behind it, which alternative of
a phrase it takes. Here it is shown that it can decide so.

* `first` and `follow` list the kinds that a phrase can start with and that can come behind it.
  Both are tables; that they are closed under the rules of the grammar is decided case by case.
* `Followed` — behind each phrase of a sequence there comes only what `follow` allows.
* `annotate` — the steps for an alternative: one for each symbol, and the traces between them.

**Theorem (`expand_eq`).** If the tokens in front of the check are derived from an alternative of a
phrase, and the tokens behind them start as `follow` allows, then the steps that the check takes
are those of this alternative. The one ambiguity of the grammar is an ELSE behind a command that
takes it already.

**Theorem (`expand_cases`).** Whatever the tokens are, the steps are those of some alternative, or
they report the token in front as a fault.
-/

namespace MiniPascal

/-! ## First and follow -/

/-- The phrase may be empty. -/
def Phrase.nullable : Phrase → Bool
  | varGroups | moreVariables | procedures | formalsPart | moreSections | moreCommands
  | argumentsPart | elsePart | relationPart | moreTerms | moreFactors | moreExpressions => true
  | _ => false

def Symbol.nullable : Symbol → Bool
  | token _ => false
  | phrase p => p.nullable

namespace Grammar

/-- The kinds that a factor can start with. -/
def factorKinds : List Kind := [.identifier, .integerLiteral, .realLiteral, .leftParen, .kwNot]

/-- The kinds that a phrase can start with. -/
def first (d : Dialect) : Phrase → List Kind
  | .program => [.kwProgram]
  | .block => .kwVar :: (if d.hasProcedures then [.kwProcedure] else []) ++ [.kwBegin]
  | .varDeclaration => [.kwVar]
  | .varGroups => if d.repeatsVarGroups then [.identifier] else []
  | .varList | .variableName | .assignment | .procedureCall => [.identifier]
  | .moreVariables | .moreExpressions => [.comma]
  | .type => [.kwInteger, .kwReal, .kwBoolean]
  | .procedures => if d.hasProcedures then [.kwProcedure] else []
  | .procedureDeclaration => [.kwProcedure]
  | .formalsPart | .formals | .argumentsPart => [.leftParen]
  | .formalSection => [.kwVar, .identifier]
  | .moreSections | .moreCommands => [.semicolon]
  | .compound => [.kwBegin]
  | .command => [.identifier, .kwBegin, .kwIf, .kwWhile]
  | .conditional => [.kwIf]
  | .elsePart => [.kwElse]
  | .repetition => [.kwWhile]
  | .expression | .simpleExpression | .expressionList => [.plus, .minus] ++ factorKinds
  | .relationPart =>
    [.equal, .notEqual, .less, .greater] ++
      if d.hasRelationalPairs then [.lessEqual, .greaterEqual] else []
  | .moreTerms => [.plus, .minus, .kwOr]
  | .term | .factor => factorKinds
  | .moreFactors => [.times, .divide, .kwAnd]

/-- The kinds that can come behind a command. -/
def afterCommand : List Kind := [.semicolon, .kwEnd, .kwElse]

/-- The kinds that can come behind an expression. -/
def afterExpression : List Kind := [.kwThen, .kwDo, .rightParen, .comma] ++ afterCommand

/-- The kinds that can come behind a phrase. Behind a program there may be anything. -/
def follow (d : Dialect) : Phrase → List Kind
  | .program => Kind.all
  | .block => [.dot, .semicolon]
  | .varDeclaration | .varGroups | .procedureDeclaration => [.kwProcedure, .kwBegin]
  | .varList | .type | .formalSection => [.semicolon, .rightParen]
  | .moreVariables => [.colon]
  | .procedures => [.kwBegin]
  | .formalsPart | .formals => [.semicolon]
  | .moreSections | .expressionList | .moreExpressions => [.rightParen]
  | .compound => .dot :: afterCommand
  | .moreCommands => [.kwEnd]
  | .command | .assignment | .procedureCall | .argumentsPart | .conditional | .elsePart
  | .repetition => afterCommand
  | .expression | .relationPart => afterExpression
  | .simpleExpression | .moreTerms => first d .relationPart ++ afterExpression
  | .term | .moreFactors => first d .moreTerms ++ first d .relationPart ++ afterExpression
  | .factor =>
    first d .moreFactors ++ first d .moreTerms ++ first d .relationPart ++ afterExpression
  | .variableName =>
    [.colon, .assign] ++ first d .moreFactors ++ first d .moreTerms ++ first d .relationPart ++
      afterExpression

/-- The kinds of the first token of a sequence of symbols, if what comes behind the sequence
starts with one of the kinds in `after`. -/
def starts (d : Dialect) (after : List Kind) : List Symbol → List Kind
  | [] => after
  | .token k :: _ => [k]
  | .phrase p :: ss => first d p ++ if p.nullable then starts d after ss else []

/-- Behind each phrase of a sequence there comes only what can follow it, if what comes behind the
sequence starts with one of the kinds in `after`. -/
def Followed (d : Dialect) (after : List Kind) : List Symbol → Prop
  | [] => True
  | .token _ :: ss => Followed d after ss
  | .phrase p :: ss => (∀ k ∈ starts d after ss, k ∈ follow d p) ∧ Followed d after ss

instance decidableFollowed (d : Dialect) (after : List Kind) :
    (ss : List Symbol) → Decidable (Followed d after ss)
  | [] => .isTrue trivial
  | .token _ :: ss => decidableFollowed d after ss
  | .phrase _ :: ss =>
    have := decidableFollowed d after ss
    inferInstanceAs (Decidable (_ ∧ _))

theorem starts_append (d : Dialect) (after : List Kind) (ss ss' : List Symbol) :
    starts d after (ss ++ ss') = starts d (starts d after ss') ss := by
  induction ss with
  | nil => rfl
  | cons s ss ih =>
    cases s with
    | token k => rfl
    | phrase p => simp only [List.cons_append, starts, ih]

theorem mem_starts {d : Dialect} {after : List Kind} {ss : List Symbol} {k : Kind} :
    k ∈ starts d after ss ↔ k ∈ starts d [] ss ∨ ss.all Symbol.nullable ∧ k ∈ after := by
  induction ss with
  | nil => simp [starts]
  | cons s ss ih =>
    cases s with
    | token k => simp [starts, Symbol.nullable]
    | phrase p => cases h : p.nullable <;> simp [starts, Symbol.nullable, h, ih, or_assoc]

theorem starts_mono {d : Dialect} {after after' : List Kind} (h : ∀ k ∈ after, k ∈ after')
    {ss : List Symbol} {k : Kind} (hk : k ∈ starts d after ss) : k ∈ starts d after' ss := by
  rw [mem_starts] at hk ⊢
  exact hk.imp_right fun ⟨empty, hk⟩ => ⟨empty, h k hk⟩

theorem Followed.mono {d : Dialect} {after after' : List Kind} (h : ∀ k ∈ after, k ∈ after')
    {ss : List Symbol} (hs : Followed d after' ss) : Followed d after ss := by
  induction ss with
  | nil => trivial
  | cons s ss ih =>
    cases s with
    | token k => exact ih hs
    | phrase p => exact ⟨fun k hk => hs.1 k (starts_mono h hk), ih hs.2⟩

theorem Followed.of_append {d : Dialect} {after : List Kind} {ss ss' : List Symbol}
    (h : Followed d after (ss ++ ss')) : Followed d after ss' := by
  induction ss with
  | nil => exact h
  | cons s ss ih =>
    cases s with
    | token k => exact ih h
    | phrase p => exact ih h.2

theorem Followed.append {d : Dialect} {after : List Kind} {ss ss' : List Symbol}
    (h : Followed d (starts d after ss') ss) (h' : Followed d after ss') :
    Followed d after (ss ++ ss') := by
  induction ss with
  | nil => exact h'
  | cons s ss ih =>
    cases s with
    | token k => exact ih h
    | phrase p => exact ⟨fun k hk => h.1 k (starts_append d after ss ss' ▸ hk), ih h.2⟩

/-! ### The tables are closed under the rules -/

theorem starts_parts (d : Dialect) (p : Phrase) :
    ∀ parts ∈ productions d p, (∀ k ∈ starts d [] parts, k ∈ first d p) ∧
      (parts.all Symbol.nullable → p.nullable) := by
  cases d <;> cases p <;> decide

theorem followed_parts (d : Dialect) (p : Phrase) :
    ∀ parts ∈ productions d p, Followed d (follow d p) parts := by
  cases d <;> cases p <;> decide

/-- Behind a program there may be anything. -/
theorem followed_program {d : Dialect} : Followed d Kind.all [.phrase .program] :=
  ⟨fun k _ => Kind.mem_all k, trivial⟩

/-- A phrase can be replaced by one of its alternatives. -/
theorem Followed.of_phrase {d : Dialect} {after : List Kind} {p : Phrase} {parts ss : List Symbol}
    (h : Followed d after (.phrase p :: ss)) (rule : parts ∈ productions d p) :
    Followed d after (parts ++ ss) :=
  .append ((followed_parts d p parts rule).mono h.1) h.2

end Grammar

open Grammar in
/-- What is derived starts as `starts` says. -/
theorem Derives.front_mem {d : Dialect} {ss : List Symbol} {ks : List Kind}
    (h : Derives d ss ks) {after more : List Kind} (hm : front more ∈ after) :
    front (ks ++ more) ∈ starts d after ss := by
  obtain ⟨t, rfl⟩ := h
  induction t generalizing after more with
  | nil => exact hm
  | token k rest ih => exact List.mem_singleton_self k
  | @phrase p parts ss rule inside rest ihi ihr =>
    have inner := ihi (ihr hm)
    obtain ⟨starting, empty⟩ := starts_parts d p parts rule
    rw [Derivation.kinds, List.append_assoc, starts, List.mem_append]
    rcases mem_starts.1 inner with hk | ⟨hn, hk⟩
    · exact .inl (starting _ hk)
    · exact .inr (by rwa [if_pos (empty hn)])

namespace Derivation

open Grammar

variable {d : Dialect} {ss : List Symbol}

/-- Symbols that derive nothing may be empty. -/
theorem all_nullable (t : Derivation d ss) (empty : t.kinds = []) : ss.all Symbol.nullable := by
  induction t with
  | nil => rfl
  | token k rest => cases empty
  | @phrase p parts ss rule inside rest ihi ihr =>
    obtain ⟨hi, hr⟩ := List.append_eq_nil_iff.1 empty
    rw [List.all_cons, ihr hr, Bool.and_true]
    exact (starts_parts d p parts rule).2 (ihi hi)

/-- Only a phrase that may be empty derives nothing. -/
theorem nullable_of_kinds {p : Phrase} (t : Derivation d ss) (rule : ss ∈ productions d p)
    (empty : t.kinds = []) : p.nullable :=
  (starts_parts d p ss rule).2 (t.all_nullable empty)

/-- What is derived starts as the symbols do, whatever comes behind it. -/
theorem front_mem_starts (t : Derivation d ss) (nonempty : t.kinds ≠ []) :
    front t.kinds ∈ starts d [] ss := by
  induction t with
  | nil => exact absurd rfl nonempty
  | token k rest => exact List.mem_singleton_self k
  | @phrase p parts ss rule inside rest ihi ihr =>
    rw [kinds, starts, List.mem_append]
    by_cases hi : inside.kinds = []
    · rw [kinds, hi, List.nil_append] at nonempty
      rw [hi, if_pos (inside.nullable_of_kinds rule hi)]
      exact .inr (ihr nonempty)
    · rw [front_append _ hi]
      exact .inl ((starts_parts d p parts rule).1 _ (ihi hi))

end Derivation

/-! ## The steps for an alternative -/

/-- The step that checks a symbol. -/
def Symbol.step : Symbol → Step
  | token k => .expect k
  | phrase p => if p.opensLevel then .level p else .phrase p

theorem Symbol.step_of_opensLevel {p : Phrase} (h : p.opensLevel) : (phrase p).step = .level p :=
  if_pos h

theorem Symbol.step_of_not {p : Phrase} (h : ¬p.opensLevel) : (phrase p).step = .phrase p :=
  if_neg h

/-- The symbol that a step checks. -/
def Step.symbol? : Step → Option Symbol
  | expect k => some (.token k)
  | phrase p | level p => some (.phrase p)
  | _ => none

/-- The symbols that an agenda checks. -/
def Step.form (agenda : List Step) : List Symbol := agenda.filterMap symbol?

@[simp] theorem Step.form_nil : form [] = [] := rfl

@[simp] theorem Step.form_append (a b : List Step) : form (a ++ b) = form a ++ form b :=
  List.filterMap_append

@[simp] theorem Step.form_step_cons (symbol : Symbol) (agenda : List Step) :
    form (symbol.step :: agenda) = symbol :: form agenda := by
  cases symbol with
  | token k => rfl
  | phrase p =>
    by_cases hp : p.opensLevel
    · rw [Symbol.step_of_opensLevel hp]
      rfl
    · rw [Symbol.step_of_not hp]
      rfl

@[simp] theorem Step.form_map_step (ss : List Symbol) : form (ss.map Symbol.step) = ss := by
  induction ss with
  | nil => rfl
  | cons symbol ss ih => rw [List.map_cons, form_step_cons, ih]

/-- The step has its place in a check that finds no fault: it checks a symbol, on a level of its
own exactly if the symbol opens one, or it puts something on record. -/
def Step.regular : Step → Bool
  | expect k => k != .endOfText
  | mark _ | finish => true
  | phrase p => !p.opensLevel
  | level p => p.opensLevel
  | _ => false

/-- The fault that an agenda reports before it does anything else but leave traces. -/
def Step.fault? : List Step → Option Diagnostic
  | mark _ :: more => fault? more
  | report e :: _ => some e
  | _ => none

theorem Symbol.regular_step_phrase (p : Phrase) : (phrase p).step.regular := by
  by_cases hp : p.opensLevel
  · rw [step_of_opensLevel hp]
    exact hp
  · rw [step_of_not hp]
    simpa [Step.regular] using hp

/-- Regular steps report nothing by themselves. -/
theorem Step.fault?_eq_none {a : List Step} (h : ∀ step ∈ a, step.regular) : fault? a = none := by
  induction a with
  | nil => rfl
  | cons step rest ih =>
    obtain ⟨here, others⟩ := List.forall_mem_cons.1 h
    cases step with
    | mark t => exact ih others
    | report e => cases here
    | _ => rfl

/-- The kind of the token that a diagnostic is about. -/
def Diagnostic.found? : Diagnostic → Option Kind
  | expected _ found | expectedType found | unexpected found | expectedFactor found => some found
  | nestingTooDeep _ => none

namespace Grammar

/-- The steps `agenda` that check the parts of a phrase, and beside them what the check puts on
record; `c` is the kind of the token in front. -/
def annotate (p : Phrase) (c : Kind) (agenda : List Step) : List Step :=
  match p, agenda with
  | .program, agenda => agenda ++ [.finish]
  | .compound, opening :: agenda =>
    opening :: .mark .compoundBegin :: agenda ++ [.mark .compoundEnd]
  | .moreCommands, separator :: agenda => separator :: .mark .separator :: agenda
  | .command, agenda => .mark (.command c) :: agenda
  | .assignment, agenda => .mark .assignment :: agenda
  | .expression, agenda => .mark .expression :: agenda
  | _, agenda => agenda

@[simp] theorem form_annotate (p : Phrase) (c : Kind) (agenda : List Step) :
    Step.form (annotate p c agenda) = Step.form agenda := by
  unfold annotate
  split <;> simp [Step.form, List.filterMap_cons, Step.symbol?]

theorem mem_annotate {p : Phrase} {c : Kind} {agenda : List Step} {step : Step}
    (h : step ∈ annotate p c agenda) : step ∈ agenda ∨ step = .finish ∨ ∃ t, step = .mark t := by
  unfold annotate at h
  split at h <;> grind

/-- No rule asks for the end of a text. -/
theorem endOfText_not_mem_parts (d : Dialect) (p : Phrase) :
    ∀ parts ∈ productions d p, .token .endOfText ∉ parts := by
  cases d <;> cases p <;> decide

theorem regular_annotate {d : Dialect} {p : Phrase} {parts : List Symbol}
    (rule : parts ∈ productions d p) (c : Kind) :
    ∀ step ∈ annotate p c (parts.map Symbol.step), step.regular := by
  intro step hs
  rcases mem_annotate hs with hs | rfl | ⟨t, rfl⟩
  · obtain ⟨symbol, mem, rfl⟩ := List.mem_map.1 hs
    cases symbol with
    | token k =>
      have : k ≠ .endOfText := by
        intro hk
        subst hk
        exact endOfText_not_mem_parts d p parts rule mem
      simpa [Symbol.step, Step.regular] using this
    | phrase q => exact Symbol.regular_step_phrase q
  · rfl
  · rfl

/-- Of the token behind the current one it matters only whether it is an assignment sign. -/
theorem expand_next (d : Dialect) (p : Phrase) (c next : Kind) :
    expand d p c next = expand d p c (if next = .assign then .assign else .error) := by
  cases p <;> try rfl
  by_cases h : next = .assign
  · rw [if_pos h, h]
  · have : (next != .assign) = true := by simpa using h
    simp only [expand, commandSteps, if_neg h, this]
    rfl

/-- What holds of the steps for a phrase can be read off a table: the kinds in front, and behind
them an assignment sign or not. -/
theorem of_table {d : Dialect} {p : Phrase} {c : Kind} {P : List Step → Prop}
    (table : ∀ next ∈ [Kind.assign, .error], P (expand d p c next)) (next : Kind) :
    P (expand d p c next) := by
  rw [expand_next]
  refine table _ ?_
  split <;> decide

/-- It matters only for an identifier in front of a command. -/
theorem expand_eq_of_ne (d : Dialect) {p : Phrase} {c : Kind} (next next' : Kind)
    (h : ¬(p = .command ∧ c = .identifier)) : expand d p c next = expand d p c next' := by
  cases p <;> try rfl
  cases c <;> first | rfl | exact absurd ⟨rfl, rfl⟩ h

/-- A phrase that may be empty is taken to be so where it cannot start with the token in front. -/
theorem expand_eq_nil {d : Dialect} {p : Phrase} {c : Kind} (hp : p.nullable) (h : c ∉ first d p)
    (next : Kind) : expand d p c next = [] := by
  have table : p.nullable → ∀ c ∈ Kind.all, c ∉ first d p → expand d p c .error = [] := by
    cases d <;> cases p <;> decide +kernel
  have other : ¬(p = .command ∧ c = .identifier) := by
    intro hc
    rw [hc.1] at hp
    cases hp
  rw [expand_eq_of_ne d next .error other]
  exact table hp c (Kind.mem_all c) h

/-- The choice between the alternatives of a phrase, as a table. -/
theorem expand_table (d : Dialect) (p : Phrase) :
    ∀ parts ∈ productions d p, ∀ c ∈ starts d (follow d p) parts, ∀ next ∈ [Kind.assign, .error],
      (parts = [.phrase .procedureCall] → next ≠ .assign) →
      (parts = [.phrase .assignment] → next = .assign) →
      (p = .elsePart → parts = [] → c ≠ .kwElse) →
        expand d p c next = annotate p c (parts.map Symbol.step) := by
  cases d <;> cases p <;> decide +kernel

/-- Behind the name in a call there is an argument list or what follows a command. -/
theorem front_tail_of_call {d : Dialect} {ks more : List Kind}
    (h : Derives d [.phrase .procedureCall] ks) (hm : front more ∈ follow d .command) :
    front (ks ++ more).tail ≠ .assign := by
  obtain ⟨_, hr, call, _, rfl, hc, hb⟩ := derives_phrase.1 h
  obtain rfl := derives_nil.1 hb
  obtain rfl := List.mem_singleton.1 hr
  obtain ⟨args, rfl, ha⟩ := derives_token.1 hc
  have behind := ha.front_mem hm
  rw [List.append_nil, List.cons_append, List.tail_cons]
  intro no
  rw [no] at behind
  cases d <;> revert behind <;> decide

theorem front_tail_of_assignment {d : Dialect} {ks : List Kind} (more : List Kind)
    (h : Derives d [.phrase .assignment] ks) : front (ks ++ more).tail = .assign := by
  obtain ⟨_, hr, assignment, _, rfl, ha, hb⟩ := derives_phrase.1 h
  obtain rfl := derives_nil.1 hb
  obtain rfl := List.mem_singleton.1 hr
  obtain ⟨_, hr, _, _, rfl, hv, hb⟩ := derives_phrase.1 ha
  obtain rfl := List.mem_singleton.1 hr
  obtain ⟨_, rfl, hn⟩ := derives_token.1 hv
  obtain rfl := derives_nil.1 hn
  obtain ⟨_, rfl, -⟩ := derives_token.1 hb
  rfl

/-- **One token is enough.** The check takes the alternative that the tokens in front of it are
derived from. -/
theorem expand_eq {d : Dialect} {p : Phrase} {parts : List Symbol}
    (rule : parts ∈ productions d p) {ks more : List Kind} (h : Derives d parts ks)
    (hm : front more ∈ follow d p)
    (he : p = .elsePart → parts = [] → front more ≠ .kwElse) :
    expand d p (front (ks ++ more)) (front (ks ++ more).tail) =
      annotate p (front (ks ++ more)) (parts.map Symbol.step) := by
  rw [expand_next]
  refine expand_table d p parts rule _ (h.front_mem hm) _ (by split <;> decide) ?_ ?_ ?_
  · intro call
    subst call
    obtain rfl : p = .command := by cases d <;> cases p <;> revert rule <;> decide
    rw [if_neg (front_tail_of_call h hm)]
    decide
  · intro assignment
    subst assignment
    rw [if_pos (front_tail_of_assignment more h)]
  · intro hp empty
    subst hp empty
    obtain rfl := derives_nil.1 h
    exact he rfl rfl

/-- The check passes over an ELSE part only if no ELSE is there. -/
theorem front_ne_kwElse {d : Dialect} {parts : List Symbol} {c next : Kind}
    (rule : parts ∈ productions d .elsePart)
    (steps : expand d .elsePart c next = annotate .elsePart c (parts.map Symbol.step))
    {t : Derivation d parts} (empty : t.kinds = []) : c ≠ .kwElse := by
  intro hc
  subst hc
  simp only [productions, List.mem_cons, List.not_mem_nil, or_false] at rule
  rcases rule with rfl | rfl
  · cases steps
  · cases t with
    | token k rest => cases empty

theorem expand_cases_table (d : Dialect) (p : Phrase) :
    ∀ c ∈ Kind.all,
      (∃ parts ∈ productions d p, expand d p c .error = annotate p c (parts.map Symbol.step)) ∨
        (Step.fault? (expand d p c .error)).bind Diagnostic.found? = some c := by
  cases d <;> cases p <;> decide +kernel

/-- **No step out of place.** The steps for a phrase are those of one of its alternatives, or they
report the token in front as a fault. -/
theorem expand_cases (d : Dialect) (p : Phrase) (c next : Kind) :
    (∃ parts ∈ productions d p, expand d p c next = annotate p c (parts.map Symbol.step)) ∨
      ∃ e, Step.fault? (expand d p c next) = some e ∧ e.found? = some c := by
  by_cases h : p = .command ∧ c = .identifier
  · obtain ⟨rfl, rfl⟩ := h
    left
    rw [expand_next]
    split <;> cases d <;> decide
  · rw [expand_eq_of_ne d next .error h, ← Option.bind_eq_some_iff]
    exact expand_cases_table d p c (Kind.mem_all c)

end Grammar

end MiniPascal
