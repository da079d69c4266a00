import MiniPascal.Proofs.Ambiguity
import MiniPascal.Proofs.Walk

/-!
# The first fault

A check reads a text from left to right. What it has read when it reports the first fault can be
completed to a program, and it cannot be completed so that the program goes on with the token that
is reported: the first diagnostic is about the first token that is wrong.

* `Viable` — some tokens are the start of something that is derived.
* `FirstWrong` — the kind of the first token that does not fit.

**Theorem (`Walk.firstWrong_of_head`).** The first diagnostic of a walk is about the first wrong
token. A check never waits with a report, since it expects a token only when nothing else can be
there; and it never reports too early, since there are no dead ends (`exists_derives`). In front of
a command the token behind an identifier decides, but both of its alternatives start with one.

For a whole program this is `found_of_head_diagnostics`.
-/

namespace MiniPascal

open Grammar

/-- The tokens are the start of something that is derived from the symbols. -/
def Viable (d : Dialect) (ss : List Symbol) (ks : List Kind) : Prop :=
  ∃ more, Derives d ss (ks ++ more)

section

variable {d : Dialect} {p : Phrase} {ss : List Symbol} {ks : List Kind}

theorem viable_nil (d : Dialect) (ss : List Symbol) : Viable d ss [] := exists_derives d ss

theorem Viable.cons (h : Viable d ss ks) (k : Kind) : Viable d (.token k :: ss) (k :: ks) := by
  obtain ⟨more, h⟩ := h
  exact ⟨more, derives_token.2 ⟨ks ++ more, rfl, h⟩⟩

theorem Viable.of_parts {parts : List Symbol} (rule : parts ∈ productions d p)
    (h : Viable d (parts ++ ss) ks) : Viable d (.phrase p :: ss) ks := by
  obtain ⟨more, h⟩ := h
  exact ⟨more, h.of_parts rule⟩

end

/-! ## Up to the first fault -/

/-- The step has its place in a check that has found no fault so far. -/
def Step.orderly : Step → Bool
  | expect k => k != .endOfText
  | report _ | skip | recover => false
  | _ => true

theorem Step.orderly_of_regular {step : Step} (h : step.regular) : step.orderly := by
  cases step <;> first | exact h | rfl

section

variable {d : Dialect} {p : Phrase}

/-- The alternative of a phrase is chosen by the tokens in front: by their kinds up to the first
two, and by the first alone unless it is an identifier in front of a command. -/
theorem expand_congr (read : List Kind) {rest more : List Kind} (hf : front more = front rest)
    (h : ¬(read = [] ∧ p = .command ∧ front rest = .identifier)) :
    expand d p (front (read ++ more)) (front (read ++ more).tail) =
      expand d p (front (read ++ rest)) (front (read ++ rest).tail) := by
  cases read with
  | nil =>
    rw [List.nil_append, List.nil_append, hf]
    exact expand_eq_of_ne d _ _ fun hp => h ⟨rfl, hp⟩
  | cons k read =>
    cases read with
    | nil => simp [hf]
    | cons k' read => rfl

/-- Whatever an identifier in front of a command is taken for, it can be the start of it. -/
theorem exists_derives_of_identifier (d : Dialect) (next : Kind) (ss : List Symbol) :
    Step.fault? (expand d .command .identifier next) = none ∧
      ∃ more, front more = .identifier ∧
        Derives d (Step.form (expand d .command .identifier next) ++ ss) more := by
  have call : ∃ more, front more = .identifier ∧ Derives d (.phrase .procedureCall :: ss) more := by
    obtain ⟨more, h⟩ := exists_derives d (.phrase .argumentsPart :: ss)
    have rule : [.token .identifier, .phrase .argumentsPart] ∈ productions d .procedureCall :=
      List.mem_singleton_self _
    exact ⟨_, rfl, .of_parts rule (derives_token.2 ⟨more, rfl, h⟩)⟩
  have assignment :
      ∃ more, front more = .identifier ∧ Derives d (.phrase .assignment :: ss) more := by
    obtain ⟨more, h⟩ := exists_derives d (.token .assign :: .phrase .expression :: ss)
    have rule : [.phrase .variableName, .token .assign, .phrase .expression] ∈
        productions d .assignment := List.mem_singleton_self _
    have name : [.token .identifier] ∈ productions d .variableName := List.mem_singleton_self _
    exact ⟨_, rfl, .of_parts rule (.of_parts name (derives_token.2 ⟨more, rfl, h⟩))⟩
  rw [expand_next]
  split <;> cases d <;> exact ⟨rfl, by assumption⟩

/-- The first token of `ahead` that does not fit the symbols is of kind `k`: what is before it is
the start of something that is derived, and nothing that is derived goes on with such a token. The
end of `ahead` counts as a token. -/
def FirstWrong (d : Dialect) (ss : List Symbol) (ahead : List Kind) (k : Kind) : Prop :=
  ∃ read rest, ahead = read ++ rest ∧ front rest = k ∧ Viable d ss read ∧
    ∀ more, front more = k → ¬Derives d ss (read ++ more)

namespace FirstWrong

variable {ss : List Symbol} {ahead : List Kind} {k : Kind}

theorem cons (h : FirstWrong d ss ahead k) (k' : Kind) :
    FirstWrong d (.token k' :: ss) (k' :: ahead) k := by
  obtain ⟨read, rest, rfl, hk, viable, no⟩ := h
  refine ⟨k' :: read, rest, rfl, hk, viable.cons k', ?_⟩
  intro more hm derives
  obtain ⟨_, split, derives⟩ := derives_token.1 derives
  rw [List.cons_append, List.cons.injEq] at split
  exact no more hm (split.2 ▸ derives)

theorem of_front_ne (h : front ahead ≠ k) : FirstWrong d (.token k :: ss) ahead (front ahead) := by
  refine ⟨[], ahead, rfl, rfl, viable_nil d _, ?_⟩
  intro more hm derives
  obtain ⟨_, split, -⟩ := derives_token.1 derives
  rw [List.nil_append] at split
  rw [split] at hm
  exact h hm.symm

/-- What is wrong for the alternative that the check takes is wrong for the phrase. -/
theorem of_alternative {parts : List Symbol} (rule : parts ∈ productions d p)
    (steps : expand d p (front ahead) (front ahead.tail) =
      annotate p (front ahead) (parts.map Symbol.step))
    (followed : Followed d Kind.all (.phrase p :: ss)) (noElse : .token .kwElse ∉ ss)
    (h : FirstWrong d (parts ++ ss) ahead k) : FirstWrong d (.phrase p :: ss) ahead k := by
  obtain ⟨read, rest, rfl, rfl, viable, no⟩ := h
  refine ⟨read, rest, rfl, rfl, viable.of_parts rule, ?_⟩
  intro more hm derives
  by_cases name : read = [] ∧ p = .command ∧ front rest = .identifier
  · -- The token behind the identifier decides, but it is not yet to be judged.
    obtain ⟨rfl, rfl, hr⟩ := name
    rw [List.nil_append, hr] at steps
    obtain ⟨-, other, ho, derives⟩ := exists_derives_of_identifier d (front rest.tail) ss
    rw [steps, form_annotate, Step.form_map_step] at derives
    exact no other (ho.trans hr.symm) derives
  · obtain ⟨parts', -, steps', derives'⟩ := exists_alternative derives followed noElse
    rw [expand_congr read hm name, steps] at steps'
    have same := congrArg Step.form steps'
    rw [form_annotate, form_annotate, Step.form_map_step, Step.form_map_step] at same
    rw [← same] at derives'
    exact no more hm derives'

/-- A fault is reported only where no alternative starts with the token in front. -/
theorem of_fault {e : Diagnostic}
    (fault : Step.fault? (expand d p (front ahead) (front ahead.tail)) = some e)
    (followed : Followed d Kind.all (.phrase p :: ss)) (noElse : .token .kwElse ∉ ss) :
    FirstWrong d (.phrase p :: ss) ahead (front ahead) := by
  refine ⟨[], ahead, rfl, rfl, viable_nil d _, ?_⟩
  intro more hm derives
  rw [List.nil_append] at derives
  by_cases name : p = .command ∧ front ahead = .identifier
  · obtain ⟨rfl, hr⟩ := name
    obtain ⟨none, -⟩ := exists_derives_of_identifier d (front ahead.tail) ss
    rw [hr, none] at fault
    cases fault
  · obtain ⟨parts, rule, steps, -⟩ := exists_alternative derives followed noElse
    have same := expand_congr (d := d) [] hm fun h => name h.2
    rw [List.nil_append, List.nil_append, steps] at same
    rw [← same, Step.fault?_eq_none (regular_annotate rule _)] at fault
    cases fault

end FirstWrong

end

/-- **Correct prefix.** The first diagnostic of a walk is about the first token that is wrong. -/
theorem Walk.firstWrong_of_head {s : Settings} {i : Nat} {a : List Step} {σ σ' : Spot}
    {ls : List Line} {e : Diagnostic} (walk : Walk s i a σ ls σ')
    (orderly : ∀ step ∈ a, step.orderly) (followed : Followed s.dialect Kind.all (Step.form a))
    (noElse : .token .kwElse ∉ (Step.form a).tail) (head : (reports ls).head? = some e)
    (found : ∀ l, e ≠ .nestingTooDeep l) :
    ∃ k, e.found? = some k ∧ FirstWrong s.dialect (Step.form a) σ.ahead k := by
  induction walk with
  | nil => cases head
  | @cons step i b σ σ' ls later ih =>
    obtain ⟨here, others⟩ := List.forall_mem_cons.1 orderly
    cases step with
    | expect k =>
      by_cases hk : front σ.ahead = k
      · have k_ne : k ≠ .endOfText := by simpa [Step.orderly] using here
        have ahead : σ.ahead = k :: σ.ahead.tail := eq_cons_of_front hk k_ne
        rw [Spot.move_expect hk] at ih head
        obtain ⟨k', hf, wrong⟩ :=
          ih others followed (fun hm => noElse (List.mem_of_mem_tail hm)) head
        rw [ahead]
        exact ⟨k', hf, wrong.cons k⟩
      · rw [Spot.move_expect_of_ne hk] at head
        obtain rfl := Option.some.inj head
        exact ⟨_, rfl, .of_front_ne hk⟩
    | phrase p =>
      rcases expand_cases s.dialect p (front σ.ahead) (front σ.ahead.tail) with
        ⟨parts, rule, steps⟩ | ⟨e', fault, he⟩
      · have todo : (σ.move s (.phrase p)).todo =
            annotate p (front σ.ahead) (parts.map Symbol.step) := steps
        rw [todo, Step.form_append, form_annotate, Step.form_map_step] at ih
        have orderly' : ∀ step ∈ annotate p (front σ.ahead) (parts.map Symbol.step) ++ b,
            step.orderly := by
          intro step hs
          rcases List.mem_append.1 hs with hs | hs
          · exact Step.orderly_of_regular (regular_annotate rule _ step hs)
          · exact others step hs
        have noElse' := kwElse_not_mem_parts rule noElse
        obtain ⟨k, hf, wrong⟩ := ih orderly' (followed.of_phrase rule) noElse' head
        exact ⟨k, hf, wrong.of_alternative rule steps followed noElse⟩
      · obtain ⟨_, _, _, _, _, _, rfl, inside, -⟩ := later.split
        obtain ⟨es, hes⟩ := inside.reports_of_fault fault
        have first : e' = e := by
          rw [reports_append, reports_append, hes] at head
          exact Option.some.inj head
        exact ⟨_, first ▸ he, .of_fault fault followed noElse⟩
    | level p =>
      by_cases room : σ.depth < s.maxNesting
      · rw [Spot.move_level p room] at ih head
        have orderly' : ∀ step ∈ .phrase p :: .close :: b, step.orderly :=
          List.forall_mem_cons.2 ⟨rfl, List.forall_mem_cons.2 ⟨rfl, others⟩⟩
        exact ih orderly' followed noElse head
      · rw [Spot.move_level_of_not p room] at head
        exact absurd (Option.some.inj head).symm (found _)
    | report e' => cases here
    | skip => cases here
    | recover => cases here
    | mark t => exact ih others followed noElse head
    | close => exact ih others followed noElse head
    | finish => exact ih others followed noElse head

/-! ## Whole programs -/

/-- The tokens are the start of a program in which each ELSE belongs to the nearest IF. -/
def StartsProgram (d : Dialect) (ks : List Kind) : Prop :=
  ∃ t : Tree d .program, t.ElsesNearest ∧ ks <+: t.kinds

/-- In front of the first wrong token there is the longest start of a program. -/
theorem FirstWrong.exists_longest {d : Dialect} {ks : List Kind} {k : Kind}
    (h : FirstWrong d [.phrase .program] ks k) :
    ∃ i ≤ ks.length, StartsProgram d (ks.take i) ∧
      (∀ j ≤ ks.length, StartsProgram d (ks.take j) → j ≤ i) ∧ ks[i]?.getD .endOfText = k := by
  obtain ⟨read, rest, rfl, hk, ⟨more, t, ht⟩, no⟩ := h
  refine ⟨read.length, by simp, ?_, ?_, ?_⟩
  · obtain ⟨t', same, nearest⟩ := t.exists_elsesNearest followed_program List.not_mem_nil
    rw [List.take_left]
    exact ⟨t', nearest, more, (same.trans ht).symm⟩
  · intro j hj ⟨t', _, more', ht'⟩
    by_cases longer : read.length < j
    · -- A longer start of a program would go on with the wrong token.
      exfalso
      have split : (read ++ rest).take j = read ++ rest.take (j - read.length) := by
        rw [List.take_append, List.take_of_length_le (Nat.le_of_lt longer)]
      rw [split, List.append_assoc] at ht'
      refine no _ ?_ ⟨t', ht'.symm⟩
      cases rest with
      | nil =>
        rw [List.append_nil] at hj
        omega
      | cons k' rest =>
        have : j - read.length = j - read.length - 1 + 1 := by omega
        rw [this]
        exact hk
    · omega
  · rw [List.getElem?_append_right (Nat.le_refl _), Nat.sub_self, ← List.head?_eq_getElem?,
      ← List.headD_eq_head?_getD]
    exact hk

/-- **The first diagnostic is at the first wrong token.** Of the tokens of a text, take as many as
are still the start of a program: the first diagnostic is about the token behind them, or about the
end of the text if there is none. Levels are another matter: they may run out earlier. -/
theorem found_of_head_diagnostics {text : String} {s : Settings} {e : Diagnostic}
    (head : (check text s).diagnostics.head? = some e) (found : ∀ l, e ≠ .nestingTooDeep l) :
    ∃ i ≤ (kinds text s.dialect).length,
      StartsProgram s.dialect ((kinds text s.dialect).take i) ∧
      (∀ j ≤ (kinds text s.dialect).length,
        StartsProgram s.dialect ((kinds text s.dialect).take j) → j ≤ i) ∧
      e.found? = some ((kinds text s.dialect)[i]?.getD .endOfText) := by
  obtain ⟨_, σ, walk⟩ := exists_walk_check text s
  have orderly : ∀ step ∈ [Step.phrase .program], step.orderly := by decide
  obtain ⟨k, hf, wrong⟩ :=
    walk.firstWrong_of_head orderly followed_program (by simp [Step.form, Step.symbol?]) head found
  obtain ⟨i, hi, start, longest, hk⟩ := wrong.exists_longest
  exact ⟨i, hi, start, longest, by rw [hf, hk]⟩

/-- The name `f` alone is a call; the name behind it is the first wrong token. -/
theorem found_of_head_diagnostics_two_names :
    ∃ i ≤ (kinds "program p; begin f x end." .extended).length,
      StartsProgram .extended ((kinds "program p; begin f x end." .extended).take i) ∧
      (∀ j ≤ (kinds "program p; begin f x end." .extended).length,
        StartsProgram .extended ((kinds "program p; begin f x end." .extended).take j) → j ≤ i) ∧
      some .identifier =
        some ((kinds "program p; begin f x end." .extended)[i]?.getD .endOfText) :=
  have first : (check "program p; begin f x end." ⟨.extended, .insert, 3⟩).diagnostics.head? =
      some (.expected .kwEnd .identifier) := by decide +kernel
  found_of_head_diagnostics first nofun

end MiniPascal
