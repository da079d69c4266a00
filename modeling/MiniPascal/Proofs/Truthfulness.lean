import MiniPascal.Proofs.Frame

/-!
# What diagnostics say is true

A diagnostic tells what is required and what is there instead. What is there never fits, and of all
the kinds in the grammar only a few are ever missed: the others are looked for only where they have
been seen. So some branches of a check are never taken.

* `Diagnostic.Truthful` — what there is to be said about a diagnostic by itself.
* `Phrase.Ready` — the phrase may be checked in front of these tokens: it finds the token that it is
  told by.
* `Step.Honest` — the invariant of agendas. A token that is not among those that can be missed is
  required only if it is right in front, or right behind a name that is. Everything else on the
  agenda is fit for any tokens, since nobody knows yet what will be in front by then.

**Theorem (`Spot.honest_move`).** Every step keeps the agenda honest, and what it reports is
truthful.

A text that does not start as a program does has one diagnostic, and for all others the agenda is
honest from the start (`truthful_check`).
-/

namespace MiniPascal

open Grammar

/-! ## Diagnostics -/

/-- The kinds that can be missed inside of a program. Where procedures can be called, the assignment
sign is none of them: without it the name in front of it is a call. -/
def Grammar.required (d : Dialect) : List Kind :=
  [.identifier, .semicolon, .dot, .kwBegin, .kwEnd, .colon, .kwThen, .kwDo, .rightParen] ++
    if d = .extended then [] else [.assign]

/-- What is found is not what is required, and nothing is required that cannot be missed. -/
def Diagnostic.Truthful (s : Settings) : Diagnostic → Prop
  | expected k found => k ∈ required s.dialect ∧ found ≠ k
  | expectedType found => found ∉ [.kwInteger, .kwReal, .kwBoolean]
  | unexpected found => found ∉ [.identifier, .kwBegin, .kwIf, .kwWhile]
  | expectedFactor found =>
    found ∉ [.identifier, .integerLiteral, .realLiteral, .leftParen, .kwNot]
  | nestingTooDeep limit => limit = s.maxNesting

/-! ## Agendas -/

/-- The phrase is told by its first token, and the token is there. An assignment is told by two if
it could be a call as well. -/
def Phrase.Ready (d : Dialect) (ks : List Kind) : Phrase → Prop
  | program => front ks = .kwProgram
  | varDeclaration => front ks = .kwVar
  | procedureDeclaration => front ks = .kwProcedure
  | formals => front ks = .leftParen
  | assignment => d.hasProcedures → front ks = .identifier ∧ front ks.tail = .assign
  | procedureCall => front ks = .identifier
  | conditional => front ks = .kwIf
  | repetition => front ks = .kwWhile
  | _ => True

namespace Step

/-- In front of the tokens `ks`, the agenda requires and reports nothing but what it may. -/
def Honest (s : Settings) : List Kind → List Step → Prop
  | _, [] => True
  | ks, .expect k :: rest =>
    (k ∈ required s.dialect ∧ ∀ ks', Honest s ks' rest) ∨ front ks = k ∧ Honest s ks.tail rest
  | ks, .phrase p :: rest =>
    (p.Ready s.dialect ks ∧ ∀ ks', Honest s ks' rest) ∨
      p = .variableName ∧ front ks = .identifier ∧ Honest s ks.tail rest
  | ks, .level p :: rest => p.Ready s.dialect ks ∧ ∀ ks', Honest s ks' rest
  | ks, .report e :: rest => e.Truthful s ∧ Honest s ks rest
  | _, .skip :: rest | _, .recover :: rest => ∀ ks', Honest s ks' rest
  | ks, .mark _ :: rest | ks, .close :: rest | ks, .finish :: rest => Honest s ks rest

/-- The phrase that comes next finds its token. -/
theorem ready_of_honest {s : Settings} {ks : List Kind} {agenda : List Step} {p : Phrase}
    (h : Honest s ks agenda) (head : agenda.head? = some (.phrase p)) : p.Ready s.dialect ks := by
  obtain ⟨rest, rfl⟩ := List.head?_eq_some_iff.1 head
  rcases h with ⟨ready, -⟩ | ⟨rfl, -⟩
  · exact ready
  · trivial

end Step

theorem Grammar.assign_mem_required {d : Dialect} (h : ¬d.hasProcedures) :
    .assign ∈ required d := by
  cases d with
  | extended => exact absurd rfl h
  | _ => decide

/-- What the steps for a phrase require is among what may be missed, or it is there. -/
theorem Grammar.honest_expand (s : Settings) {p : Phrase} {ks : List Kind} {rest : List Step}
    (h : Step.Honest s ks (.phrase p :: rest)) :
    Step.Honest s ks (expand s.dialect p (front ks) (front ks.tail) ++ rest) := by
  rcases h with ⟨ready, later⟩ | ⟨rfl, name, later⟩
  · cases p
    case assignment =>
      -- The sign is looked for behind the name, so it has to have been seen there.
      by_cases calls : s.dialect.hasProcedures
      · obtain ⟨name, sign⟩ := ready calls
        exact .inr ⟨rfl, name, .inr ⟨sign, .inl ⟨trivial, later⟩⟩⟩
      · have missed := assign_mem_required calls
        exact .inl ⟨trivial, fun _ => .inl ⟨missed, fun _ => .inl ⟨trivial, later⟩⟩⟩
    all_goals
      simp only [expand, commandSteps, factorSteps]
      (repeat' split) <;>
        simp_all [Step.Honest, Phrase.Ready, required, Diagnostic.Truthful, typeKinds]
  · exact .inr ⟨name, later⟩

section

variable {s : Settings} {σ σ' : Spot} {step : Step} {a rest : List Step}

/-- **Every step keeps the agenda honest**, and what it reports is truthful. -/
theorem Spot.honest_move (h : Step.Honest s σ.ahead (step :: rest)) :
    Step.Honest s (σ.move s step).spot.ahead ((σ.move s step).todo ++ rest) ∧
      ∀ e ∈ reports (σ.move s step).lines, e.Truthful s := by
  cases step with
  | expect k =>
    by_cases hk : front σ.ahead = k
    · rw [move_expect hk]
      refine ⟨?_, List.forall_mem_nil _⟩
      rcases h with ⟨-, later⟩ | ⟨-, later⟩
      · exact later _
      · exact later
    · rw [move_expect_of_ne hk]
      rcases h with ⟨missed, later⟩ | ⟨here, -⟩
      · exact ⟨later _, List.forall_mem_singleton.2 ⟨missed, hk⟩⟩
      · exact absurd here hk
  | report e => exact ⟨h.2, List.forall_mem_singleton.2 h.1⟩
  | level p =>
    obtain ⟨ready, later⟩ := h
    by_cases room : σ.depth < s.maxNesting
    · rw [move_level p room]
      exact ⟨.inl ⟨ready, later⟩, List.forall_mem_nil _⟩
    · rw [move_level_of_not p room]
      exact ⟨later _, List.forall_mem_singleton.2 rfl⟩
  | phrase p => exact ⟨honest_expand s h, List.forall_mem_nil _⟩
  | skip | recover => exact ⟨h _, List.forall_mem_nil _⟩
  | mark t | close | finish => exact ⟨h, List.forall_mem_nil _⟩

/-- **What a walk with an honest agenda reports is truthful.** -/
theorem Walk.truthful {i : Nat} {ls : List Line} (walk : Walk s i a σ ls σ')
    (h : Step.Honest s σ.ahead a) : ∀ e ∈ reports ls, e.Truthful s := by
  induction walk with
  | nil => exact List.forall_mem_nil _
  | cons step _ ih =>
    obtain ⟨later, truthful⟩ := Spot.honest_move h
    rw [reports_append]
    exact List.forall_mem_append.2 ⟨truthful, ih later⟩

end

/-! ## Whole programs -/

namespace Checker

variable {text : String} {s : Settings}

theorem honest_tick {x : Checker × List Step} (within : x.1.Within text s)
    (h : Step.Honest s x.1.ahead x.2) : Step.Honest s (tick x).1.ahead (tick x).2 := by
  obtain ⟨c, agenda⟩ := x
  cases agenda with
  | nil => exact h
  | cons step rest =>
    obtain ⟨todo, arrives⟩ := perform_arrives within.coherent step
    have ahead : (c.perform step).1.ahead = (c.spot.move c.settings step).spot.ahead :=
      congrArg Spot.ahead arrives.spot
    obtain ⟨coherent, rfl, rfl, -⟩ := within
    show Step.Honest c.settings (c.perform step).1.ahead ((c.perform step).2 ++ rest)
    rw [todo, ahead]
    exact (Spot.honest_move (σ := c.spot) h).1

/-- The agenda of a text that starts as a program does is honest all the way. -/
theorem honest_ticks (h : (ofText text s).current.kind = .kwProgram) (i : Nat) :
    Step.Honest s (tick^[i] (ofText text s, [.phrase .program])).1.ahead
      (tick^[i] (ofText text s, [.phrase .program])).2 := by
  induction i with
  | zero =>
    rw [← front_ahead] at h
    exact .inl ⟨h, fun _ => trivial⟩
  | succ i ih =>
    rw [Function.iterate_succ_apply']
    exact honest_tick ((Within.ofText text s).ticks _ i) ih

/-- In a text that does not, no part of a program is looked for. -/
theorem eq_program_of_ne {p : Phrase} (h : (ofText text s).current.kind ≠ .kwProgram) (i : Nat)
    (head : (tick^[i] (ofText text s, [.phrase .program])).2.head? = some (.phrase p)) :
    p = .program := by
  have first : tick (ofText text s, [.phrase .program]) =
      (ofText text s, [.report (.expected .kwProgram (ofText text s).current.kind)]) := by
    simp [tick, perform, expand, h]
  cases i with
  | zero =>
    cases head
    rfl
  | succ i =>
    rw [Function.iterate_succ_apply, first] at head
    cases i with
    | zero => cases head
    | succ i =>
      rw [Function.iterate_succ_apply, Function.iterate_fixed (by rfl)] at head
      cases head

/-- The phrases that are told by their first token are checked only where it is. -/
structure OnCourse (c : Checker) (agenda : List Step) : Prop where
  call : agenda.head? = some (.phrase .procedureCall) → c.current.kind = .identifier
  conditional : agenda.head? = some (.phrase .conditional) → c.current.kind = .kwIf
  repetition : agenda.head? = some (.phrase .repetition) → c.current.kind = .kwWhile

theorem OnCourse.of_honest {c : Checker} {agenda : List Step}
    (h : Step.Honest s c.ahead agenda) : c.OnCourse agenda where
  call head := c.front_ahead.symm.trans (Step.ready_of_honest h head)
  conditional head := c.front_ahead.symm.trans (Step.ready_of_honest h head)
  repetition head := c.front_ahead.symm.trans (Step.ready_of_honest h head)

theorem OnCourse.of_program {c : Checker} {agenda : List Step}
    (only : ∀ p, agenda.head? = some (.phrase p) → p = .program) : c.OnCourse agenda where
  call head := nomatch only _ head
  conditional head := nomatch only _ head
  repetition head := nomatch only _ head

end Checker

/-- **Diagnostics are truthful.** A text that does not start as a program does has one line, which
says so. In all other texts, what a diagnostic finds is not what it requires, and it requires only
what can be missed. Calls, conditionals and repetitions are checked only where their first token has
been seen, so none of them is ever reported to lack it. -/
theorem truthful_check (text : String) (s : Settings) :
    ((∃ found, found ≠ .kwProgram ∧
        (check text s).lines = [.diagnostic (.expected .kwProgram found)]) ∨
      ∀ e ∈ (check text s).diagnostics, e.Truthful s) ∧
    ∀ i, (Checker.tick^[i] (.ofText text s, [.phrase .program])).1.OnCourse
      (Checker.tick^[i] (.ofText text s, [.phrase .program])).2 := by
  by_cases first : (Checker.ofText text s).current.kind = .kwProgram
  · refine ⟨.inr ?_, ?_⟩
    · obtain ⟨_, _, walk⟩ := exists_walk_check text s
      refine walk.truthful (.inl ⟨?_, fun _ => trivial⟩)
      exact (Checker.current_ofText text s).symm.trans first
    · exact fun i => .of_honest (Checker.honest_ticks first i)
  · refine ⟨.inl ⟨_, first, lines_check_of_ne first⟩, ?_⟩
    exact fun i => .of_program fun p => Checker.eq_program_of_ne first i

end MiniPascal
