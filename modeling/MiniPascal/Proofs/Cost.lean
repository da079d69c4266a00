import MiniPascal.Proofs.Walk
import Mathlib.Logic.Function.Iterate

/-!
# What a check costs

A check comes to its end, however deep levels may be nested, and it scans hardly more tokens than
there are.

* `Checker.tick` — one step of a run, on the checker together with its agenda.
* `Checker.scans` — how often the scanner was asked for a token. Looking ahead is not counted.
* `Checker.Solvent` — the balance that every step keeps. A scan is paid for by a token that is
  consumed, or by a diagnostic. The steps that consume a token whatever it is, `skip` and
  `recover`, are debts of the agenda; the step `report` in front of them is what covers them.

**Theorem (`Checker.exists_iterate_tick`).** A run has emptied its agenda after no more steps than
its effort.

**Theorem (`Checker.solvent_run`).** A run keeps the balance, so it scans no more than there are
tokens ahead of it and diagnostics on its way.

For a whole program both are put together in `check_ends_and_scans_le`.
-/

namespace MiniPascal

/-! ## The end of a run -/

namespace Checker

/-- Takes the first step of the agenda. A run is at its end when its agenda is empty. -/
def tick : Checker × List Step → Checker × List Step
  | (c, []) => (c, [])
  | (c, step :: rest) => ((c.perform step).1, (c.perform step).2 ++ rest)

/-- **Every run ends**, after no more steps than its effort. -/
theorem exists_iterate_tick (c : Checker) (agenda : List Step) :
    ∃ i ≤ c.effort agenda, tick^[i] (c, agenda) = (c.run agenda, []) := by
  fun_induction run c agenda with
  | case1 c => exact ⟨0, Nat.zero_le _, rfl⟩
  | case2 c step rest taken ih =>
    obtain ⟨i, le, ends⟩ := ih
    exact ⟨i + 1, Nat.lt_of_le_of_lt le (effort_perform_lt c step rest), ends⟩

/-! ## Scans and diagnostics -/

/-- The number of tokens that were scanned to be the current one. -/
def scans (c : Checker) : Nat := c.journal.scanned.length

/-- The number of diagnostics so far. -/
def errors (c : Checker) : Nat := c.transcript.errorCount

@[simp] theorem scans_advance (c : Checker) : c.advance.scans = c.scans + 1 := by
  simp [scans, advance, Event.token?]

@[simp] theorem scans_mark (c : Checker) (t : Trace) : (c.mark t).scans = c.scans := by
  simp [scans, mark, say, Event.token?]

@[simp] theorem scans_report (c : Checker) (e : Diagnostic) : (c.report e).scans = c.scans := by
  simp [scans, report, note, say, Event.token?]

@[simp] theorem scans_close (c : Checker) : c.close.scans = c.scans := rfl

@[simp] theorem scans_finish (c : Checker) : c.finish.scans = c.scans := by
  simp [scans, finish, Event.token?]

theorem scans_recover_le (c : Checker) : c.recover.scans ≤ c.scans + 1 := by
  unfold recover
  split <;> simp

theorem errors_eq (c : Checker) : c.errors = (reports c.transcript.lines).length := rfl

@[simp] theorem errors_advance (c : Checker) : c.advance.errors = c.errors := by
  simp [errors_eq, transcript, advance, Event.line?]

@[simp] theorem errors_mark (c : Checker) (t : Trace) : (c.mark t).errors = c.errors := by
  simp [errors_eq, transcript, mark, say, Event.line?]

@[simp] theorem errors_report (c : Checker) (e : Diagnostic) :
    (c.report e).errors = c.errors + 1 := by
  simp [errors_eq, transcript, report, note, say, Event.line?]

@[simp] theorem errors_close (c : Checker) : c.close.errors = c.errors := rfl

@[simp] theorem errors_finish (c : Checker) : c.finish.errors = c.errors := by
  simp [errors_eq, transcript, finish, Event.line?]

@[simp] theorem errors_recover (c : Checker) : c.recover.errors = c.errors := by
  unfold recover
  split <;> simp

@[simp] theorem ahead_mark (c : Checker) (t : Trace) : (c.mark t).ahead = c.ahead := rfl

@[simp] theorem ahead_report (c : Checker) (e : Diagnostic) : (c.report e).ahead = c.ahead := rfl

@[simp] theorem ahead_close (c : Checker) : c.close.ahead = c.ahead := rfl

@[simp] theorem ahead_finish (c : Checker) : c.finish.ahead = c.ahead := rfl

variable {c : Checker}

theorem length_ahead_advance_le (h : c.Coherent) : c.advance.ahead.length ≤ c.ahead.length := by
  have same : c.advance.ahead = c.spot.advance.ahead := congrArg Spot.ahead (arrives_advance h).spot
  rw [same]
  exact c.spot.length_advance_le

theorem length_ahead_advance_lt (h : c.Coherent) (hk : c.current.kind ≠ .endOfText) :
    c.advance.ahead.length < c.ahead.length := by
  have same : c.advance.ahead = c.spot.advance.ahead := congrArg Spot.ahead (arrives_advance h).spot
  rw [same]
  exact Spot.length_advance_lt (σ := c.spot) (by rwa [← c.front_ahead] at hk)

theorem length_ahead_recover_le (h : c.Coherent) : c.recover.ahead.length ≤ c.ahead.length := by
  unfold recover
  split
  · exact length_ahead_advance_le h
  · exact Nat.le_refl _

end Checker

/-! ## The balance -/

namespace Step

/-- The step consumes a token whatever it is, so that it may scan in vain. -/
def forced : Step → Bool
  | skip | recover => true
  | _ => false

/-- The step records a diagnostic. -/
def isReport : Step → Bool
  | report _ => true
  | _ => false

/-- Each forced step is covered by a report, and nothing waits for the end of the text. -/
def Covered (agenda : List Step) : Prop :=
  .expect .endOfText ∉ agenda ∧ agenda.countP forced ≤ agenda.countP isReport

instance (agenda : List Step) : Decidable (Covered agenda) := inferInstanceAs (Decidable (_ ∧ _))

end Step

/-- The steps for a phrase report what they skip. -/
theorem Grammar.covered_expand (d : Dialect) (p : Phrase) (c next : Kind) :
    Step.Covered (expand d p c next) := by
  have table : ∀ c ∈ Kind.all, ∀ next ∈ [Kind.assign, .error],
      Step.Covered (expand d p c next) := by
    cases d <;> cases p <;> decide +kernel
  exact of_table (table c (Kind.mem_all c)) next

namespace Checker

variable {c : Checker} {step : Step} {rest agenda : List Step} {budget : Nat}

/-- The steps that a step leaves report what they skip. -/
theorem covered_perform (c : Checker) (step : Step) : Step.Covered (c.perform step).2 := by
  cases step with
  | phrase p => exact Grammar.covered_expand c.dialect p c.current.kind c.peek
  | level p =>
    simp only [perform]
    split <;> simp [Step.Covered, Step.forced]
  | _ => simp [perform, Step.Covered]

/-- What a step scans is paid for by the token that it consumes or by the diagnostic that it
records. A forced step is a debt, and a report covers one. -/
theorem scans_perform_le (h : c.Coherent) (noEnd : step ≠ .expect .endOfText) :
    (c.perform step).1.scans + (c.perform step).1.ahead.length + c.errors +
        (if step.isReport then 1 else 0) ≤
      c.scans + c.ahead.length + (c.perform step).1.errors + (if step.forced then 1 else 0) := by
  cases step with
  | expect k =>
    show (c.expect k).scans + (c.expect k).ahead.length + c.errors + 0 ≤
      c.scans + c.ahead.length + (c.expect k).errors + 0
    by_cases hk : c.current.kind = k
    · have hn : c.current.kind ≠ .endOfText := by
        intro he
        exact noEnd (congrArg Step.expect (hk.symm.trans he))
      have := length_ahead_advance_lt h hn
      rw [expect_of_isAt hk, scans_advance, errors_advance]
      omega
    · have := length_ahead_recover_le h
      have := c.scans_recover_le
      rw [expect_of_not_isAt hk, scans_report, errors_report, ahead_report, errors_recover]
      omega
  | report e =>
    show (c.report e).scans + c.ahead.length + c.errors + 1 ≤
      c.scans + c.ahead.length + (c.report e).errors + 0
    rw [scans_report, errors_report]
    omega
  | skip =>
    show c.advance.scans + c.advance.ahead.length + c.errors + 0 ≤
      c.scans + c.ahead.length + c.advance.errors + 1
    have := length_ahead_advance_le h
    rw [scans_advance, errors_advance]
    omega
  | recover =>
    show c.recover.scans + c.recover.ahead.length + c.errors + 0 ≤
      c.scans + c.ahead.length + c.recover.errors + 1
    have := length_ahead_recover_le h
    have := c.scans_recover_le
    rw [errors_recover]
    omega
  | level p =>
    by_cases room : c.depth < c.maxNesting
    · simp only [perform, open?, if_pos room]
      exact Nat.le_of_eq (Nat.add_right_comm _ _ _)
    · simp only [perform, open?, if_neg room]
      show c.refuse.scans + c.refuse.ahead.length + c.errors + 0 ≤
        c.scans + c.ahead.length + c.refuse.errors + 0
      have := length_ahead_advance_le (c := c.report (.nestingTooDeep c.maxNesting)) h
      rw [refuse, scans_advance, scans_report, errors_advance, errors_report]
      rw [ahead_report] at this
      omega
  | mark t => simp [perform, Step.isReport, Step.forced]
  | phrase p => simp [perform, Step.isReport, Step.forced]
  | close => simp [perform, Step.isReport, Step.forced]
  | finish => simp [perform, Step.isReport, Step.forced]

/-- All scans so far are paid for. The `budget` is one for each token of the text and one for its
end, and each diagnostic adds to it. The tokens ahead and the forced steps on the agenda are still
to be paid for; the reports on the agenda will add to the budget. -/
structure Solvent (budget : Nat) (c : Checker) (agenda : List Step) : Prop where
  coherent : c.Coherent
  noEnd : .expect .endOfText ∉ agenda
  balance : c.scans + c.ahead.length + agenda.countP Step.forced ≤
    budget + c.errors + agenda.countP Step.isReport

/-- **Every step keeps the balance.** -/
theorem solvent_perform (h : c.Solvent budget (step :: rest)) :
    (c.perform step).1.Solvent budget ((c.perform step).2 ++ rest) := by
  obtain ⟨coherent, noEnd, balance⟩ := h
  obtain ⟨here, later⟩ := not_or.1 (fun h => noEnd (List.mem_cons.2 h))
  obtain ⟨noEnd, covered⟩ := covered_perform c step
  refine ⟨(perform_arrives coherent step).2.coherent, ?_, ?_⟩
  · exact fun h => (List.mem_append.1 h).elim noEnd later
  · have paid := scans_perform_le coherent (Ne.symm here)
    simp only [List.countP_cons, List.countP_append] at balance ⊢
    omega

/-- **Every run keeps the balance.** -/
theorem solvent_run (h : c.Solvent budget agenda) : (c.run agenda).Solvent budget [] := by
  fun_induction run c agenda with
  | case1 c => exact h
  | case2 c step rest taken ih => exact ih (solvent_perform h)

/-- In front of the first token one token has been scanned and nothing has been found. -/
theorem solvent_ofText (text : String) (s : Settings) :
    (ofText text s).Solvent (1 + (tokens s.dialect text.toList).length) [.phrase .program] where
  coherent := coherent_ofText text s
  noEnd := by decide
  balance := by
    have ahead : (ofText text s).ahead = kinds text s.dialect :=
      congrArg Spot.ahead (spot_ofText text s)
    have one : (ofText text s).scans = 1 := by
      show (Journal.add {} _).scanned.length = 1
      rw [Journal.scanned_add]
      rfl
    rw [ahead, one, kinds, List.length_map]
    exact Nat.le_add_right _ _

theorem effort_ofText_le (text : String) (s : Settings) :
    (ofText text s).effort [.phrase .program] ≤ 100 * text.length + 48 := by
  have effort : (ofText text s).effort [.phrase .program] ≤ 100 * (ofText text s).remaining + 48 :=
    Step.effort_le _ _ _
  have remaining : (ofText text s).remaining ≤ text.toList.length :=
    length_pull_add_le s.dialect text.toList
  rw [String.length_toList] at remaining
  omega

end Checker

/-- **A check ends, and it scans each token once.** It takes a number of steps that is linear in
the length of the text. It scans the tokens of the text and the end of it, and beyond that at most
one token more, which is the end once again, for each diagnostic. No bound on the levels is
needed. -/
theorem check_ends_and_scans_le (text : String) (s : Settings) :
    (∃ i ≤ 100 * text.length + 48,
      Checker.tick^[i] (Checker.ofText text s, [.phrase .program]) = (checked text s, [])) ∧
    (checked text s).scans ≤
      1 + (tokens s.dialect text.toList).length + (check text s).errorCount := by
  constructor
  · obtain ⟨i, le, ends⟩ := (Checker.ofText text s).exists_iterate_tick [.phrase .program]
    exact ⟨i, Nat.le_trans le (Checker.effort_ofText_le text s), ends⟩
  · have balance := (Checker.solvent_run (Checker.solvent_ofText text s)).balance
    show (checked text s).scans ≤ _ + (checked text s).errors
    change (checked text s).scans + _ + 0 ≤ _ + (checked text s).errors + 0 at balance
    omega

end MiniPascal
