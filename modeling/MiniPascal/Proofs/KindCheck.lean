import MiniPascal.Proofs.Walk

/-!
# Checks of lists of kinds

A checker pulls its tokens out of a text, one at a time, and scans the next one ahead of time where
it has to choose between an assignment and a call. This module has a checker without a text: it
takes the same steps in front of a plain list of kinds, and looks at the first two of them.

* `Spot.run` — the steps of an agenda, all of them, as a function: the lines that they leave and
  the spot where they lead to. A `Walk` is the same run step by step (`Walk.run_eq`).
* `checkKinds` — the check of a list of kinds.

**Theorem (`Checker.arrives_run`).** The run of a checker is the run from its spot, whatever text
the checker has and wherever in the text it stands. It is coherent all the way, so the token that
it scans ahead is the second one of its list.

**Theorem (`check_eq_checkKinds`).** So the check of a text is the check of its kinds, and texts
with the same kinds have the same transcript (`check_eq_check_of_kinds`).
-/

namespace MiniPascal

open Step

/-! ## The run from a spot -/

namespace Spot

/-- A bound on the steps that are left to be taken. -/
def effort (σ : Spot) (agenda : List Step) : Nat :=
  Step.effort σ.ahead.length (front σ.ahead) agenda

/-- Every move makes the effort that is left smaller. -/
theorem effort_move_lt (s : Settings) (σ : Spot) (step : Step) (rest : List Step) :
    (σ.move s step).spot.effort ((σ.move s step).todo ++ rest) < σ.effort (step :: rest) := by
  cases step with
  | expect k =>
    by_cases hk : front σ.ahead = k
    · rw [move_expect hk]
      refine effort_lt_of_left σ.length_advance_le fun h => length_advance_lt ?_
      simp only [consumes, Bool.and_eq_true, bne_iff_ne] at h
      exact h.2
    · rw [move_expect_of_ne hk]
      refine effort_lt_of_left (σ.length_recover_le s.recovery) fun h => ?_
      simp only [consumes, Bool.and_eq_true, beq_iff_eq] at h
      exact absurd h.1.symm hk
  | mark t => exact effort_mark_lt _ _ t rest
  | report e => exact effort_lt_of_left (Nat.le_refl _) fun h => by cases h
  | skip => exact effort_lt_of_left σ.length_advance_le fun h => by cases h
  | recover => exact effort_lt_of_left (σ.length_recover_le s.recovery) fun h => by cases h
  | phrase p => exact effort_expand_lt s.dialect p _ rest length_pos
  | level p =>
    by_cases room : σ.depth < s.maxNesting
    · rw [move_level p room]
      exact effort_level_lt σ.ahead.length _ p rest
    · rw [move_level_of_not p room]
      exact effort_lt_of_left σ.length_advance_le fun h =>
        length_advance_lt (Phrase.ne_endOfText_of_consumes h)
  | close => exact effort_lt_of_left (Nat.le_refl _) fun h => by cases h
  | finish => exact effort_lt_of_left (Nat.le_refl _) fun h => by cases h

/-- Takes the steps of an agenda, and all the steps that they leave: the lines, and the spot at
the end. -/
def run (s : Settings) (σ : Spot) : List Step → List Line × Spot
  | [] => ([], σ)
  | step :: rest =>
    let m := σ.move s step
    let later := m.spot.run s (m.todo ++ rest)
    (m.lines ++ later.1, later.2)
termination_by agenda => σ.effort agenda
decreasing_by exact effort_move_lt s σ step rest

@[simp] theorem run_nil (s : Settings) (σ : Spot) : σ.run s [] = ([], σ) := by rw [run]

theorem run_cons (s : Settings) (σ : Spot) (step : Step) (rest : List Step) :
    σ.run s (step :: rest) =
      ((σ.move s step).lines ++ ((σ.move s step).spot.run s ((σ.move s step).todo ++ rest)).1,
        ((σ.move s step).spot.run s ((σ.move s step).todo ++ rest)).2) := by rw [run]

end Spot

/-- A walk leads where the run leads. -/
theorem Walk.run_eq {s : Settings} {i : Nat} {agenda : List Step} {σ σ' : Spot} {ls : List Line}
    (h : Walk s i agenda σ ls σ') : σ.run s agenda = (ls, σ') := by
  induction h with
  | nil σ => exact Spot.run_nil s σ
  | cons step _ ih => rw [Spot.run_cons, ih]

/-! ## Checkers and lists of kinds -/

/-- **The run of a checker is the run from its spot.** -/
theorem Checker.arrives_run {c : Checker} (h : c.Coherent) (agenda : List Step) :
    c.Arrives (c.run agenda) (c.spot.run c.settings agenda).1
      (c.spot.run c.settings agenda).2 := by
  obtain ⟨i, ls, σ, walk, arrives⟩ := exists_walk h agenda
  rw [walk.run_eq]
  exact arrives

/-- What there is to say about tokens of these kinds, which should be those of a program. -/
def checkKinds (ks : List Kind) (s : Settings) : Transcript :=
  ⟨((⟨ks, 0⟩ : Spot).run s [.phrase .program]).1⟩

/-- **The check of a text is the check of its kinds.** -/
theorem check_eq_checkKinds (text : String) (s : Settings) :
    check text s = checkKinds (kinds text s.dialect) s := by
  have arrives := Checker.arrives_run (Checker.coherent_ofText text s) [.phrase .program]
  rw [Checker.spot_ofText] at arrives
  exact congrArg Transcript.mk arrives.lines

/-- **Only the kinds of the tokens matter.** The check of a text is that of the list of its kinds.
So two texts whose tokens are of the same kinds have the same transcript, however their names and
numbers are spelled and whatever stands between their tokens. -/
theorem check_eq_check_of_kinds {text text' : String} {s : Settings}
    (same : (tokenize text s.dialect).map Token.kind = (tokenize text' s.dialect).map Token.kind) :
    check text s = check text' s ∧ check text s = checkKinds (kinds text s.dialect) s := by
  rw [map_kind_tokenize, map_kind_tokenize] at same
  have kinds := List.append_cancel_right same
  refine ⟨?_, check_eq_checkKinds text s⟩
  rw [check_eq_checkKinds, kinds, check_eq_checkKinds]

/-- Other names, another number, other gaps, and the same fault: no assignment sign. -/
theorem check_eq_check_of_kinds_respelled :
    check "program p; begin x = 1 end." ⟨.extended, .insert, 7⟩ =
        check "program \x7bnote\x7d quotient;begin\n_y2 = 475\n\nend." ⟨.extended, .insert, 7⟩ ∧
      check "program p; begin x = 1 end." ⟨.extended, .insert, 7⟩ =
        checkKinds (kinds "program p; begin x = 1 end." .extended) ⟨.extended, .insert, 7⟩ :=
  check_eq_check_of_kinds (by decide +kernel)

end MiniPascal
