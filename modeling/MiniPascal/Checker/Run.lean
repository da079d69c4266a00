import MiniPascal.Checker

/-!
# Running a checker

A checker is run with an agenda, the steps that are still to be taken. The first step is performed;
a phrase is replaced by its parts, which come before the rest of the agenda. The agenda may grow
without bound, and at the end of the text or under the `insert` policy a step need not consume
anything, so the run needs a reason to end.

**The reason** (`effort`). Each step has a weight, greater than the weights of the steps that it
leaves in its place. Where that cannot be, since the phrase repeats itself or contains itself, the
first thing that is done is to consume a token that is there (`Step.consumes`). So each token that
is left is worth more than all the parts of a phrase, and a token that is about to be consumed
counts as consumed. `effort_perform_lt` says that every step makes this number smaller.

Main definitions: `Checker.run`, and `check` for a whole program. `Checker.run_append` says that an
agenda can be cut anywhere.
-/

namespace MiniPascal

/-! ## Weights -/

/-- More than the weights of a phrase's parts, except for phrases that contain themselves. -/
def Phrase.weight : Phrase → Nat
  | moreVariables | varGroups | moreSections | moreCommands | procedures | argumentsPart | elsePart
  | relationPart | moreTerms | moreFactors | moreExpressions => 1
  | variableName => 2
  | type | factor | procedureCall => 3
  | term => 7
  | varList => 8
  | formalSection | simpleExpression => 10
  | varDeclaration => 12
  | expression => 13
  | formals => 14
  | formalsPart | expressionList => 15
  | assignment => 18
  | command => 20
  | compound => 28
  | repetition => 38
  | conditional => 39
  | block => 42
  | program => 48
  | procedureDeclaration => 62

/-- The phrase starts with a token of this kind, and consumes it if it is there. Only those phrases
are told apart that come first in a phrase which they contain. -/
def Phrase.consumes : Phrase → Kind → Bool
  | variableName, .identifier | varList, .identifier | compound, .kwBegin | conditional, .kwIf
  | repetition, .kwWhile | procedureDeclaration, .kwProcedure => true
  | _, _ => false

namespace Step

/-- A level weighs more than its phrase and the step that closes it. -/
def weight : Step → Nat
  | phrase p => p.weight
  | level p => p.weight + 2
  | _ => 1

/-- What an agenda weighs. -/
def totalWeight : List Step → Nat
  | [] => 0
  | step :: more => step.weight + totalWeight more

/-- The agenda will consume the current token, of kind `k`, before it does anything but leave
traces, and the text is not at its end. -/
def consumes (k : Kind) : List Step → Bool
  | mark _ :: more => consumes k more
  | expect k' :: _ => k' == k && k != .endOfText
  | phrase p :: _ => p.consumes k
  | level p :: _ => p.consumes k
  | _ => false

@[simp] theorem totalWeight_nil : totalWeight [] = 0 := rfl

@[simp] theorem totalWeight_cons (s : Step) (agenda : List Step) :
    totalWeight (s :: agenda) = s.weight + totalWeight agenda := rfl

@[simp] theorem totalWeight_append (agenda more : List Step) :
    totalWeight (agenda ++ more) = totalWeight agenda + totalWeight more := by
  induction agenda with
  | nil => simp
  | cons step agenda ih => simp [ih, Nat.add_assoc]

end Step

theorem Phrase.ne_endOfText_of_consumes {p : Phrase} {k : Kind} (h : p.consumes k) :
    k ≠ .endOfText := by
  rintro rfl
  cases p <;> simp [consumes] at h

/-- An agenda consumes a token only where one is left. -/
theorem Step.ne_endOfText_of_consumes {k : Kind} {agenda : List Step} (h : consumes k agenda) :
    k ≠ .endOfText := by
  fun_induction consumes k agenda with
  | case1 _ _ ih => exact ih h
  | case2 => simp_all
  | case3 => exact Phrase.ne_endOfText_of_consumes h
  | case4 => exact Phrase.ne_endOfText_of_consumes h
  | case5 => cases h

namespace Grammar

open Step

/-- A phrase that consumes the current token leaves parts that do so and weigh less. -/
theorem consumes_expand (d : Dialect) {p : Phrase} {k : Kind} (next : Kind) (rest : List Step)
    (h : p.consumes k) :
    consumes k (expand d p k next ++ rest) ∧ totalWeight (expand d p k next) < p.weight := by
  unfold Phrase.consumes at h
  split at h
  case h_7 => cases h
  all_goals simp [expand, consumes, weight, Phrase.weight, Phrase.consumes]

theorem ne_endOfText_of_mem_relations {d : Dialect} {k : Kind} (h : k ∈ relations d) :
    k ≠ .endOfText := by
  rintro rfl
  cases d <;> revert h <;> decide

/-- The parts of a phrase weigh less than the phrase, or they consume the current token, and then
they weigh less than a token is worth. -/
theorem totalWeight_expand (d : Dialect) (p : Phrase) (k next : Kind) (rest : List Step) :
    totalWeight (expand d p k next) < p.weight ∨
      consumes k (expand d p k next ++ rest) ∧
        totalWeight (expand d p k next) < p.weight + 100 := by
  cases p
  case command =>
    simp only [expand, commandSteps]
    split <;> try split
    all_goals simp [consumes, weight, Phrase.weight, Phrase.consumes]
  case factor =>
    simp only [expand, factorSteps]
    split <;> simp [consumes, weight, Phrase.weight]
  case relationPart =>
    simp only [expand]
    split
    · next h =>
      have := ne_endOfText_of_mem_relations h
      simp [consumes, weight, Phrase.weight, this]
    · simp [Phrase.weight]
  case moreTerms =>
    simp only [expand]
    split
    · next h =>
      have : k ≠ .endOfText := by rintro rfl; revert h; decide
      simp [consumes, weight, Phrase.weight, this]
    · simp [Phrase.weight]
  case moreFactors =>
    simp only [expand]
    split
    · next h =>
      have : k ≠ .endOfText := by rintro rfl; revert h; decide
      simp [consumes, weight, Phrase.weight, this]
    · simp [Phrase.weight]
  all_goals
    simp only [expand]
    try split
    all_goals simp_all [consumes, weight, Phrase.weight, Phrase.consumes]

end Grammar

/-! ## Effort -/

namespace Step

variable {left left' : Nat} {k k' : Kind} {step : Step} {agenda rest : List Step}

/-- A bound on the steps that an agenda takes, where `left` things are left to be consumed and a
token of kind `k` is in front. -/
def effort (left : Nat) (k : Kind) (agenda : List Step) : Nat :=
  100 * (left - (consumes k agenda).toNat) + totalWeight agenda

theorem effort_le (left : Nat) (k : Kind) (agenda : List Step) :
    effort left k agenda ≤ 100 * left + totalWeight agenda := by
  unfold effort
  omega

theorem weight_pos (step : Step) : 0 < step.weight := by
  cases step with
  | phrase p => cases p <;> decide
  | level p => exact Nat.succ_pos _
  | _ => exact Nat.one_pos

/-- A step leaves less effort if it consumes a token, or consumes none and leaves nothing. -/
theorem effort_lt_of_left (le : left' ≤ left) (lt : consumes k (step :: rest) → left' < left) :
    effort left' k' rest < effort left k (step :: rest) := by
  have after := effort_le left' k' rest
  have := step.weight_pos
  unfold effort at after ⊢
  rw [totalWeight_cons]
  cases h : consumes k (step :: rest)
  · simp only [Bool.toNat_false]
    omega
  · have := lt h
    simp only [Bool.toNat_true]
    omega

theorem effort_mark_lt (left : Nat) (k : Kind) (t : Trace) (rest : List Step) :
    effort left k rest < effort left k (.mark t :: rest) := by
  simp only [effort, consumes, totalWeight_cons, weight]
  omega

/-- To check a phrase is less effort by its parts. -/
theorem effort_expand_lt (d : Dialect) (p : Phrase) (next : Kind) (rest : List Step)
    (pos : k ≠ .endOfText → 0 < left) :
    effort left k (Grammar.expand d p k next ++ rest) < effort left k (.phrase p :: rest) := by
  simp only [effort, totalWeight_append, totalWeight_cons, weight, consumes]
  cases hp : p.consumes k
  · rcases Grammar.totalWeight_expand d p k next rest with lighter | ⟨front, lighter⟩
    · simp only [Bool.toNat_false]
      omega
    · have := pos (ne_endOfText_of_consumes front)
      simp only [front, Bool.toNat_true, Bool.toNat_false]
      omega
  · have ⟨front, lighter⟩ := Grammar.consumes_expand d next rest hp
    have := pos (Phrase.ne_endOfText_of_consumes hp)
    simp only [front, Bool.toNat_true]
    omega

/-- To open a level is less effort than the level. -/
theorem effort_level_lt (left : Nat) (k : Kind) (p : Phrase) (rest : List Step) :
    effort left k (.phrase p :: .close :: rest) < effort left k (.level p :: rest) := by
  simp only [effort, consumes, totalWeight_cons, weight]
  omega

end Step

namespace Checker

open Step

/-! ## The run -/

/-- A bound on the steps that are left to be taken. -/
def effort (c : Checker) (agenda : List Step) : Nat :=
  100 * (c.remaining - (consumes c.current.kind agenda).toNat) + totalWeight agenda

/-- Every step makes the effort that is left smaller. -/
theorem effort_perform_lt (c : Checker) (s : Step) (rest : List Step) :
    (c.perform s).1.effort ((c.perform s).2 ++ rest) < c.effort (s :: rest) := by
  cases s with
  | expect k =>
    refine effort_lt_of_left (c.remaining_expect_le k) fun h => ?_
    simp only [consumes, Bool.and_eq_true, beq_iff_eq, bne_iff_ne] at h
    rw [perform, expect_of_isAt h.1.symm]
    exact remaining_advance_lt h.2
  | mark t => exact effort_mark_lt c.remaining c.current.kind t rest
  | report e => exact effort_lt_of_left (Nat.le_refl _) fun h => by cases h
  | skip => exact effort_lt_of_left c.remaining_advance_le fun h => by cases h
  | recover => exact effort_lt_of_left c.remaining_recover_le fun h => by cases h
  | phrase p => exact effort_expand_lt c.dialect p c.peek rest remaining_pos
  | level p =>
    by_cases room : c.depth < c.maxNesting
    · simp only [perform, open?, if_pos room]
      exact effort_level_lt c.remaining c.current.kind p rest
    · simp only [perform, open?, if_neg room, List.nil_append]
      exact effort_lt_of_left c.remaining_refuse_le fun h =>
        remaining_refuse_lt (Phrase.ne_endOfText_of_consumes h)
  | close => exact effort_lt_of_left (Nat.le_refl _) fun h => by cases h
  | finish => exact effort_lt_of_left (Nat.le_refl _) fun h => by cases h

/-- Takes the steps of an agenda, and all the steps that they leave. -/
def run (c : Checker) : List Step → Checker
  | [] => c
  | s :: rest =>
    let taken := c.perform s
    taken.1.run (taken.2 ++ rest)
termination_by agenda => c.effort agenda
decreasing_by exact effort_perform_lt c s rest

@[simp] theorem run_nil (c : Checker) : c.run [] = c := by rw [run]

theorem run_cons (c : Checker) (s : Step) (rest : List Step) :
    c.run (s :: rest) = (c.perform s).1.run ((c.perform s).2 ++ rest) := by rw [run]

/-- An agenda can be taken in two parts. -/
theorem run_append (c : Checker) (agenda more : List Step) :
    c.run (agenda ++ more) = (c.run agenda).run more := by
  fun_induction run c agenda with
  | case1 => rfl
  | case2 c s rest taken ih =>
    rw [List.cons_append, run_cons, ← List.append_assoc]
    exact ih

/-- A run takes one step at a time. -/
theorem run_cons_eq_run_run (c : Checker) (s : Step) (rest : List Step) :
    c.run (s :: rest) = (c.run [s]).run rest := run_append c [s] rest

/-- Checks one phrase. -/
def parse (c : Checker) (p : Phrase) : Checker := c.run [p.step]

/-- The step that checks a phrase one level deeper is a nested run. -/
theorem run_level (c : Checker) (p : Phrase) :
    c.run [.level p] = (c.nested (m := Id) fun inner => ((), inner.run [.phrase p])).2 := by
  unfold nested
  rw [run_cons, perform]
  split
  · next inner h =>
    rw [List.append_nil, run_cons_eq_run_run, run_cons _ .close]
    exact run_nil (inner.run [.phrase p]).close
  · rw [List.append_nil, run_nil]
    rfl

end Checker

/-! ## Whole programs -/

/-- The checker at the end of a check of a whole program. -/
def checked (text : String) (s : Settings) : Checker := (Checker.ofText text s).parse .program

/-- What there is to say about a text that should be a program. -/
def check (text : String) (s : Settings) : Transcript := (checked text s).transcript

end MiniPascal
