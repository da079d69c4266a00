import MiniPascal.Proofs.Walk

/-!
# Walks that part

Two checks of one text under different settings go together as long as the settings do not matter.

* `Parting` — two walks that go together up to a step which is another one for each of them.

**Theorem (`Walk.eq_or_parting`).** Two walks over one agenda from one spot, each under its own
settings, are the same, or they part.

Where they part depends on what the settings differ in.

* The recovery policies part at a token that does not fit, and this is reported by both
  (`Parting.throughReport_eq`). Before that they agree, as `check_policies_agree` says of whole
  programs.
* Two bounds on the levels part where the lower one is hit, and this is reported by one of them
  (`Parting.exists_refusal`). For whole programs that is `check_deeper`.
-/

namespace MiniPascal

open Grammar

/-- Two walks from one spot, over one agenda, that part: one under the settings `s`, which leaves
the lines `ls`, and one under the settings `s'`, which leaves the lines `ls'`. -/
inductive Parting (s s' : Settings) : List Step → Spot → List Line → List Line → Prop
  /-- The step is another one for each of them. -/
  | here {step : Step} {rest : List Step} {σ : Spot} (differ : σ.move s step ≠ σ.move s' step)
      (more more' : List Line) :
      Parting s s' (step :: rest) σ ((σ.move s step).lines ++ more)
        ((σ.move s' step).lines ++ more')
  /-- The step is the same one, and they part later. -/
  | later {step : Step} {rest : List Step} {σ : Spot} {ls ls' : List Line}
      (same : σ.move s step = σ.move s' step)
      (h : Parting s s' ((σ.move s step).todo ++ rest) (σ.move s step).spot ls ls') :
      Parting s s' (step :: rest) σ ((σ.move s step).lines ++ ls) ((σ.move s step).lines ++ ls')

/-- **Two walks are the same or they part.** -/
theorem Walk.eq_or_parting {s s' : Settings} {i j : Nat} {a : List Step} {σ σ₁ σ₂ : Spot}
    {ls ls' : List Line} (h : Walk s i a σ ls σ₁) (h' : Walk s' j a σ ls' σ₂) :
    ls = ls' ∨ Parting s s' a σ ls ls' := by
  induction h generalizing j ls' with
  | nil =>
    cases h'
    exact .inl rfl
  | @cons step i rest σ _ ls later ih =>
    cases h' with
    | @cons _ j _ _ _ ls' later' =>
      by_cases same : σ.move s step = σ.move s' step
      · rw [← same] at later' ⊢
        rcases ih later' with rfl | parting
        · exact .inl rfl
        · exact .inr (.later same parting)
      · exact .inr (.here same ls ls')

/-! ## Recovery policies -/

/-- The lines up to the first diagnostic, and this one. -/
def throughReport : List Line → List Line
  | [] => []
  | .trace t :: ls => .trace t :: throughReport ls
  | .diagnostic e :: _ => [.diagnostic e]

theorem throughReport_append {ls ls' : List Line} (xs : List Line)
    (same : throughReport ls = throughReport ls') :
    throughReport (xs ++ ls) = throughReport (xs ++ ls') := by
  induction xs with
  | nil => exact same
  | cons x xs ih =>
    cases x with
    | trace t => exact congrArg (Line.trace t :: ·) ih
    | diagnostic e => rfl

@[simp] theorem reports_throughReport (ls : List Line) :
    reports (throughReport ls) = (reports ls).take 1 := by
  induction ls with
  | nil => rfl
  | cons l ls ih =>
    cases l with
    | trace t => exact ih
    | diagnostic e => rfl

/-- Without a diagnostic that is all the lines. -/
theorem throughReport_of_reports {ls : List Line} (h : reports ls = []) :
    throughReport ls = ls := by
  induction ls with
  | nil => rfl
  | cons l ls ih =>
    cases l with
    | trace t => exact congrArg (Line.trace t :: ·) (ih h)
    | diagnostic e => cases h

/-- The agenda does not recover from anything before it has reported it. -/
def Step.careful : List Step → Bool
  | [] => true
  | report _ :: _ => true
  | recover :: _ => false
  | _ :: rest => careful rest

theorem Step.careful_append {a b : List Step} (ha : careful a) (hb : careful b) :
    careful (a ++ b) := by
  fun_induction careful a with
  | case1 => exact hb
  | case2 => rfl
  | case3 => cases ha
  | case4 step rest report recover ih =>
    cases step with
    | report e => exact absurd rfl (report e)
    | recover => exact absurd rfl recover
    | _ => exact ih ha

theorem Grammar.careful_expand (d : Dialect) (p : Phrase) (c next : Kind) :
    Step.careful (expand d p c next) := by
  have table : ∀ c ∈ Kind.all, ∀ next ∈ [Kind.assign, .error],
      Step.careful (expand d p c next) := by
    cases d <;> cases p <;> decide +kernel
  exact of_table (P := fun steps => Step.careful steps) (table c (Kind.mem_all c)) next

/-- A careful agenda stays so until it reports something. -/
theorem Step.careful_move (s : Settings) (σ : Spot) {step : Step} {rest : List Step}
    (h : careful (step :: rest)) :
    (∃ e, step = .report e) ∨ careful ((σ.move s step).todo ++ rest) := by
  have todo : careful (σ.move s step).todo :=
    Spot.todo_of (P := fun steps => careful steps) s σ step rfl (careful_expand s.dialect)
      fun _ => rfl
  cases step with
  | report e => exact .inl ⟨e, rfl⟩
  | recover => cases h
  | _ => exact .inr (careful_append todo h)

section

variable {d : Dialect} {r r' : Recovery} {n : Nat} {a : List Step} {σ : Spot} {ls ls' : List Line}

/-- Only where a token does not fit does a step depend on the policy, and then it reports that,
unless it is the one that recovers from what has been reported. -/
theorem Spot.lines_of_policies {step : Step}
    (differ : σ.move ⟨d, r, n⟩ step ≠ σ.move ⟨d, r', n⟩ step) :
    step = .recover ∨ ∃ e, (σ.move ⟨d, r, n⟩ step).lines = [.diagnostic e] ∧
      (σ.move ⟨d, r', n⟩ step).lines = [.diagnostic e] := by
  cases step with
  | recover => exact .inl rfl
  | expect k =>
    by_cases hk : front σ.ahead = k
    · rw [move_expect hk, move_expect hk] at differ
      exact absurd rfl differ
    · rw [move_expect_of_ne hk, move_expect_of_ne hk]
      exact .inr ⟨_, rfl, rfl⟩
  | _ => exact absurd rfl differ

/-- **Policies part at a diagnostic**, which is the same one for both. -/
theorem Parting.throughReport_eq (h : Parting ⟨d, r, n⟩ ⟨d, r', n⟩ a σ ls ls')
    (careful : Step.careful a) : throughReport ls = throughReport ls' := by
  induction h with
  | here differ more more' =>
    rcases Spot.lines_of_policies differ with rfl | ⟨e, lines, lines'⟩
    · cases careful
    · rw [lines, lines']
      rfl
  | @later step rest σ ls ls' same h ih =>
    rcases Step.careful_move ⟨d, r, n⟩ σ careful with ⟨e, rfl⟩ | careful
    · rfl
    · exact throughReport_append _ (ih careful)

end

/-- What agrees through the first diagnostic has a diagnostic in both cases or in none. -/
theorem reports_eq_nil_iff {ls ls' : List Line} (same : throughReport ls = throughReport ls') :
    reports ls = [] ↔ reports ls' = [] := by
  have firsts := congrArg reports same
  rw [reports_throughReport, reports_throughReport] at firsts
  constructor
  · intro none
    simpa [none] using firsts
  · intro none
    simpa [none] using firsts

/-- **The recovery policies differ only behind a fault.** The lines of a check are the same under
both, up to the first diagnostic and with it. So both find something wrong or neither does, and then
all the lines are the same. -/
theorem check_policies_agree (text : String) (d : Dialect) (n : Nat) :
    throughReport (check text ⟨d, .swallow, n⟩).lines =
        throughReport (check text ⟨d, .insert, n⟩).lines ∧
      ((check text ⟨d, .swallow, n⟩).isClean ↔ (check text ⟨d, .insert, n⟩).isClean) ∧
      ((check text ⟨d, .swallow, n⟩).isClean →
        check text ⟨d, .swallow, n⟩ = check text ⟨d, .insert, n⟩) := by
  obtain ⟨i, σ, swallow⟩ := exists_walk_check text ⟨d, .swallow, n⟩
  obtain ⟨j, σ', insert⟩ := exists_walk_check text ⟨d, .insert, n⟩
  have agree : throughReport (check text ⟨d, .swallow, n⟩).lines =
      throughReport (check text ⟨d, .insert, n⟩).lines := by
    rcases swallow.eq_or_parting insert with same | parting
    · exact congrArg throughReport same
    · exact parting.throughReport_eq rfl
  have both := reports_eq_nil_iff agree
  rw [isClean_iff_reports, isClean_iff_reports]
  refine ⟨agree, both, ?_⟩
  intro clean
  rw [throughReport_of_reports clean, throughReport_of_reports (both.1 clean)] at agree
  exact congrArg Transcript.mk agree

/-! ## Bounds on the levels -/

/-- The step reports that levels are nested too deep, whether they are or not. -/
def Step.tellsLevels : Step → Bool
  | report (.nestingTooDeep _) => true
  | _ => false

/-- The steps for a phrase leave it to the levels to tell when they run out. -/
theorem Grammar.not_tellsLevels_expand (d : Dialect) (p : Phrase) (c next : Kind) :
    ∀ step ∈ expand d p c next, ¬step.tellsLevels := by
  have table : ∀ c ∈ Kind.all, ∀ next ∈ [Kind.assign, .error],
      ∀ step ∈ expand d p c next, ¬step.tellsLevels := by
    cases d <;> cases p <;> decide +kernel
  exact of_table (P := fun steps => ∀ step ∈ steps, ¬step.tellsLevels) (table c (Kind.mem_all c))
    next

theorem Step.not_tellsLevels_move (s : Settings) (σ : Spot) {step : Step} {rest : List Step}
    (quiet : ∀ other ∈ step :: rest, ¬other.tellsLevels) :
    ∀ other ∈ (σ.move s step).todo ++ rest, ¬other.tellsLevels := by
  refine List.forall_mem_append.2 ⟨?_, (List.forall_mem_cons.1 quiet).2⟩
  refine Spot.todo_of (P := fun steps => ∀ other ∈ steps, ¬other.tellsLevels) s σ step
    (List.forall_mem_nil _) (Grammar.not_tellsLevels_expand s.dialect) ?_
  intro p
  simp [tellsLevels]

/-- Only a level that is refused tells of levels, and it tells the bound. -/
theorem Spot.limit_eq_of_mem {s : Settings} {σ : Spot} {step : Step} {l : Nat}
    (quiet : ¬step.tellsLevels)
    (h : .diagnostic (.nestingTooDeep l) ∈ (σ.move s step).lines) : l = s.maxNesting := by
  cases step with
  | expect k =>
    by_cases hk : front σ.ahead = k
    · rw [move_expect hk] at h
      cases h
    · rw [move_expect_of_ne hk] at h
      cases List.mem_singleton.1 h
  | report e =>
    obtain rfl := (Line.diagnostic.inj (List.mem_singleton.1 h)).symm
    exact absurd rfl quiet
  | mark t => cases List.mem_singleton.1 h
  | level p =>
    by_cases room : σ.depth < s.maxNesting
    · rw [move_level p room] at h
      cases h
    · rw [move_level_of_not p room] at h
      exact Diagnostic.nestingTooDeep.inj (Line.diagnostic.inj (List.mem_singleton.1 h))
  | _ => cases h

/-- **The bound that is told is the bound.** -/
theorem Walk.limit_eq_of_mem {s : Settings} {i : Nat} {a : List Step} {σ σ' : Spot}
    {ls : List Line} {l : Nat} (walk : Walk s i a σ ls σ') (quiet : ∀ step ∈ a, ¬step.tellsLevels)
    (h : .diagnostic (.nestingTooDeep l) ∈ ls) : l = s.maxNesting := by
  induction walk with
  | nil => cases h
  | @cons step i rest σ _ ls _ ih =>
    rcases List.mem_append.1 h with h | h
    · exact Spot.limit_eq_of_mem (quiet step List.mem_cons_self) h
    · exact ih (Step.not_tellsLevels_move s σ quiet) h

section

variable {d : Dialect} {r : Recovery} {n m : Nat} {a : List Step} {σ : Spot} {ls ls' : List Line}

/-- Only where the lower bound is hit does a step depend on the bound. -/
theorem Spot.lines_of_bounds {step : Step} (lt : n < m)
    (differ : σ.move ⟨d, r, n⟩ step ≠ σ.move ⟨d, r, m⟩ step) :
    (σ.move ⟨d, r, n⟩ step).lines = [.diagnostic (.nestingTooDeep n)] := by
  cases step with
  | level p =>
    by_cases room : σ.depth < n
    · have room' : σ.depth < m := Nat.lt_trans room lt
      rw [move_level (s := ⟨d, r, n⟩) p room, move_level (s := ⟨d, r, m⟩) p room'] at differ
      exact absurd rfl differ
    · rw [move_level_of_not (s := ⟨d, r, n⟩) p room]
  | _ => exact absurd rfl differ

/-- **Bounds part where the lower one is hit.** The walk under this bound tells so, and neither of
them has told anything like it before. -/
theorem Parting.exists_refusal (h : Parting ⟨d, r, n⟩ ⟨d, r, m⟩ a σ ls ls') (lt : n < m)
    (quiet : ∀ step ∈ a, ¬step.tellsLevels) :
    ∃ shared more more', ls = shared ++ .diagnostic (.nestingTooDeep n) :: more ∧
      (∀ l, .diagnostic (.nestingTooDeep l) ∉ shared) ∧ ls' = shared ++ more' := by
  induction h with
  | @here step rest σ differ more more' =>
    refine ⟨[], more, (σ.move ⟨d, r, m⟩ step).lines ++ more', ?_, ?_, rfl⟩
    · rw [Spot.lines_of_bounds lt differ]
      rfl
    · intro l
      exact List.not_mem_nil
  | @later step rest σ ls ls' same h ih =>
    have here := quiet step List.mem_cons_self
    obtain ⟨shared, more, more', rfl, none, rfl⟩ := ih (Step.not_tellsLevels_move _ σ quiet)
    refine ⟨(σ.move ⟨d, r, n⟩ step).lines ++ shared, more, more', ?_, ?_, ?_⟩
    · rw [List.append_assoc]
    · -- A refusal in common would tell both bounds.
      intro l hl
      rcases List.mem_append.1 hl with hl | hl
      · have low : l = n := Spot.limit_eq_of_mem here hl
        rw [same] at hl
        have high : l = m := Spot.limit_eq_of_mem here hl
        omega
      · exact none l hl
    · rw [List.append_assoc]

end

/-- **A higher bound changes nothing until the lower one is hit.** If a check never finds that
levels are nested too deep, its lines are the same under every higher bound. If it does, its lines
are others, but they are the same up to the first such diagnostic, which tells the lower bound. -/
theorem check_deeper {n m : Nat} (lt : n < m) (text : String) (d : Dialect) (r : Recovery) :
    ((∀ l, .diagnostic (.nestingTooDeep l) ∉ (check text ⟨d, r, n⟩).lines) →
        check text ⟨d, r, n⟩ = check text ⟨d, r, m⟩) ∧
      ((∃ l, .diagnostic (.nestingTooDeep l) ∈ (check text ⟨d, r, n⟩).lines) →
        check text ⟨d, r, n⟩ ≠ check text ⟨d, r, m⟩ ∧
          ∃ shared more more',
            (check text ⟨d, r, n⟩).lines = shared ++ .diagnostic (.nestingTooDeep n) :: more ∧
              (∀ l, .diagnostic (.nestingTooDeep l) ∉ shared) ∧
              (check text ⟨d, r, m⟩).lines = shared ++ more') := by
  obtain ⟨i, σ, low⟩ := exists_walk_check text ⟨d, r, n⟩
  obtain ⟨j, σ', high⟩ := exists_walk_check text ⟨d, r, m⟩
  have quiet : ∀ step ∈ [Step.phrase .program], ¬step.tellsLevels := by decide
  constructor
  · intro none
    rcases low.eq_or_parting high with same | parting
    · exact congrArg Transcript.mk same
    · obtain ⟨shared, more, more', lines, -⟩ := parting.exists_refusal lt quiet
      refine absurd ?_ (none n)
      rw [lines]
      exact List.mem_append_right _ List.mem_cons_self
  · intro ⟨l, hl⟩
    have told : l = n := low.limit_eq_of_mem quiet hl
    have differ : (check text ⟨d, r, n⟩).lines ≠ (check text ⟨d, r, m⟩).lines := by
      intro same
      rw [same] at hl
      have : l = m := high.limit_eq_of_mem quiet hl
      omega
    refine ⟨fun same => differ (congrArg Transcript.lines same), ?_⟩
    rcases low.eq_or_parting high with same | parting
    · exact absurd same differ
    · exact parting.exists_refusal lt quiet

/-- A factor inside of a factor inside of a command needs three levels. Two are too few, and a
fourth is not used. -/
theorem check_deeper_parentheses :
    check "program p; begin x := (1) end." ⟨.standard, .swallow, 3⟩ =
        check "program p; begin x := (1) end." ⟨.standard, .swallow, 4⟩ ∧
      check "program p; begin x := (1) end." ⟨.standard, .swallow, 2⟩ ≠
        check "program p; begin x := (1) end." ⟨.standard, .swallow, 4⟩ :=
  have lines : (check "program p; begin x := (1) end." ⟨.standard, .swallow, 3⟩).lines =
      [.trace .compoundBegin, .trace (.command .identifier), .trace .assignment,
        .trace .expression, .trace .expression, .trace .compoundEnd] := by decide +kernel
  have refused : .diagnostic (.nestingTooDeep 2) ∈
      (check "program p; begin x := (1) end." ⟨.standard, .swallow, 2⟩).lines := by decide +kernel
  ⟨(check_deeper (by decide) _ .standard .swallow).1 (by simp [lines]),
    ((check_deeper (by decide) _ .standard .swallow).2 ⟨2, refused⟩).1⟩

end MiniPascal
