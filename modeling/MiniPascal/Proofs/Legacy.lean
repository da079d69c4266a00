import MiniPascal.Proofs.Relabelling
import MiniPascal.Proofs.Walk

/-!
# The legacy dialect accepts nothing

In the legacy dialect every word but `program` is an identifier. So no text has a BEGIN in it, no
block can be entered, and there is no program. What a check says is known in advance, up to the
tokens that it finds.

* `Unreserved` — none of the kinds is that of a reserved word, unless it is PROGRAM.
* `missed` — the line that tells of a missing token, or no line if the token is there.

**Theorem (`unreserved_kinds`).** The kinds of a text in the legacy dialect are unreserved.

**Theorem (`exists_lines_legacy`).** The check of a text that starts as a program does misses its
BEGIN and nothing else but the tokens around it.

Both policies and all bounds on the levels are covered by `check_legacy`.
-/

namespace MiniPascal

open Grammar Lexis

/-! ## Kinds -/

/-- No word but `program` is reserved. -/
def Unreserved (ks : List Kind) : Prop := ∀ k ∈ ks, k.unreserved = k

theorem Unreserved.tail {ks : List Kind} (h : Unreserved ks) : Unreserved ks.tail :=
  fun k hk => h k (List.mem_of_mem_tail hk)

theorem Unreserved.front {ks : List Kind} (h : Unreserved ks) :
    (front ks).unreserved = front ks := by
  cases ks with
  | nil => decide
  | cons k ks => exact h k List.mem_cons_self

theorem Kind.unreserved_unreserved (k : Kind) : k.unreserved.unreserved = k.unreserved := by
  cases k <;> decide

/-- Whatever a piece is, it is no reserved word. -/
theorem Lexis.Piece.unreserved_eq {k : Kind} {piece rest : List Char}
    (h : Piece .legacy k piece rest) : k.unreserved = k := by
  cases h with
  | mark h =>
    have table : ∀ m ∈ marks, m.2.unreserved = m.2 := by decide
    exact table _ h
  | assign has => cases has
  | operator =>
    have table : ∀ k ∈ operatorKinds, k.unreserved = k := by decide
    exact table _ (operatorKind_mem .legacy piece)
  | word =>
    rw [wordKind_legacy]
    exact Kind.unreserved_unreserved _
  | real has => cases has
  | colon | integer | other => decide

/-- **No text has a reserved word.** -/
theorem unreserved_kinds (text : String) : Unreserved (kinds text .legacy) := by
  intro k hk
  obtain ⟨token, mem, rfl⟩ := List.mem_map.1 hk
  obtain ⟨tile, rest, rfl, -, piece⟩ := exists_tile_of_mem mem
  exact piece.unreserved_eq

/-! ## Lines -/

/-- The line that tells that a token is missing and which one was found, if one was. -/
def missed (k : Kind) (found? : Option Kind) : List Line :=
  found?.toList.map fun found => .diagnostic (.expected k found)

/-- The line tells that a token of this kind is missing. -/
def Line.misses (k : Kind) : Line → Bool
  | diagnostic (.expected k' _) => k' = k
  | _ => false

theorem length_missed_le (k : Kind) (found? : Option Kind) : (missed k found?).length ≤ 1 := by
  cases found? <;> simp [missed]

@[simp] theorem traces_missed (k : Kind) (found? : Option Kind) :
    (missed k found?).filterMap Line.trace? = [] := by
  cases found? <;> rfl

theorem countP_missed {k k' : Kind} (found? : Option Kind) (h : k' ≠ k) :
    (missed k' found?).countP (Line.misses k) = 0 := by
  cases found? <;> simp [missed, Line.misses, h]

theorem countP_missed_some (k found : Kind) :
    (missed k (some found)).countP (Line.misses k) = 1 := by
  simp [missed, Line.misses]

section

variable {r : Recovery} {n i : Nat} {rest : List Step} {σ σ' : Spot} {ls : List Line}

/-- A token that is required is there or missed, and what is left is unreserved as before. -/
theorem Walk.of_expect {s : Settings} {k : Kind} (walk : Walk s i (.expect k :: rest) σ ls σ')
    (plain : Unreserved σ.ahead) :
    ∃ found? j ls' σ₁, ls = missed k found? ++ ls' ∧ Unreserved σ₁.ahead ∧
      Walk s j rest σ₁ ls' σ' := by
  by_cases hk : front σ.ahead = k
  · obtain ⟨_, _, -, rfl, later⟩ := walk.move (Spot.move_expect hk)
    exact ⟨none, _, _, σ.advance, rfl, plain.tail, later⟩
  · obtain ⟨_, _, -, rfl, later⟩ := walk.move (Spot.move_expect_of_ne hk)
    refine ⟨some _, _, _, σ.recover s.recovery, rfl, ?_, later⟩
    unfold Spot.recover
    split
    · exact plain.tail
    · exact plain

/-- A block is not entered: its BEGIN is missed. -/
theorem Walk.of_block_legacy (walk : Walk ⟨.legacy, r, n⟩ i (.phrase .block :: rest) σ ls σ')
    (plain : Unreserved σ.ahead) :
    ∃ found j ls' σ₁, ls = missed .kwBegin (some found) ++ ls' ∧
      Unreserved σ₁.ahead ∧ Walk ⟨.legacy, r, n⟩ j rest σ₁ ls' σ' := by
  have other {k : Kind} (reserved : k.unreserved ≠ k) : front σ.ahead ≠ k := by
    rintro rfl
    exact reserved plain.front
  have block : σ.move ⟨.legacy, r, n⟩ (.phrase .block) =
      { spot := σ, todo := [.phrase .procedures, .phrase .compound] } := by
    simp [Spot.move, expand, other (k := .kwVar) (by decide)]
  have procedures : σ.move ⟨.legacy, r, n⟩ (.phrase .procedures) = { spot := σ } := by
    simp [Spot.move, expand, Dialect.hasProcedures]
  have compound : σ.move ⟨.legacy, r, n⟩ (.phrase .compound) =
      { spot := σ, todo := [.report (.expected .kwBegin (front σ.ahead)), .skip] } := by
    simp [Spot.move, expand, other (k := .kwBegin) (by decide)]
  obtain ⟨_, _, -, rfl, walk⟩ := walk.move block
  obtain ⟨_, _, -, rfl, walk⟩ := walk.move procedures
  obtain ⟨_, _, -, rfl, walk⟩ := walk.move compound
  cases walk with
  | cons _ walk =>
    cases walk with
    | cons _ walk => exact ⟨_, _, _, σ.advance, rfl, plain.tail, walk⟩

/-- **The lines of a check in the legacy dialect.** The name and the semicolon behind PROGRAM are
there or missed, the BEGIN is missed, and the dot at the end is there or missed. -/
theorem exists_lines_legacy {text : String}
    (program : (Checker.ofText text ⟨.legacy, r, n⟩).current.kind = .kwProgram) :
    ∃ name? semicolon? found dot?, (check text ⟨.legacy, r, n⟩).lines =
      missed .identifier name? ++ (missed .semicolon semicolon? ++
        (missed .kwBegin (some found) ++ missed .dot dot?)) := by
  obtain ⟨_, _, walk⟩ := exists_walk_check text ⟨.legacy, r, n⟩
  have first : front (kinds text .legacy) = .kwProgram :=
    (Checker.current_ofText text ⟨.legacy, r, n⟩).symm.trans program
  have steps : (⟨kinds text .legacy, 0⟩ : Spot).move ⟨.legacy, r, n⟩ (.phrase .program) =
      { spot := ⟨kinds text .legacy, 0⟩, todo := programSteps ++ [.finish] } := by
    simp [Spot.move, expand, first, programSteps]
  obtain ⟨_, _, -, lines, walk⟩ := walk.move steps
  obtain ⟨_, _, -, rfl, walk⟩ := walk.move (Spot.move_expect first)
  obtain ⟨name?, _, _, _, rfl, plain, walk⟩ := walk.of_expect (unreserved_kinds text).tail
  obtain ⟨semicolon?, _, _, _, rfl, plain, walk⟩ := walk.of_expect plain
  obtain ⟨found, _, _, _, rfl, plain, walk⟩ := walk.of_block_legacy plain
  obtain ⟨dot?, _, _, _, rfl, -, walk⟩ := walk.of_expect plain
  cases walk with
  | cons _ walk =>
    cases walk
    refine ⟨name?, semicolon?, found, dot?, lines.trans ?_⟩
    show _ ++ (_ ++ (_ ++ (missed .dot dot? ++ []))) = _
    rw [List.append_nil]

end

/-- A transcript that has lines but no traces is not clean. -/
theorem Transcript.not_isClean_of_traces {t : Transcript} (none : t.traces = [])
    (some : 1 ≤ t.length) : ¬t.isClean := by
  have length := t.length_eq
  rw [none, List.length_nil, Nat.zero_add] at length
  simp only [isClean, beq_iff_eq]
  omega

/-- **The legacy dialect accepts no program.** Whatever the text is, its check has one to four lines
and no trace. It misses PROGRAM and says nothing else, or it misses BEGIN once. -/
theorem check_legacy (text : String) (r : Recovery) (n : Nat) :
    ¬(check text ⟨.legacy, r, n⟩).isClean ∧
      1 ≤ (check text ⟨.legacy, r, n⟩).length ∧ (check text ⟨.legacy, r, n⟩).length ≤ 4 ∧
      (check text ⟨.legacy, r, n⟩).traces = [] ∧
      ((∃ found, (check text ⟨.legacy, r, n⟩).lines =
          [.diagnostic (.expected .kwProgram found)]) ∨
        (check text ⟨.legacy, r, n⟩).lines.countP (Line.misses .kwBegin) = 1) := by
  by_cases program : (Checker.ofText text ⟨.legacy, r, n⟩).current.kind = .kwProgram
  · obtain ⟨name?, semicolon?, found, dot?, lines⟩ := exists_lines_legacy program
    have traces : (check text ⟨.legacy, r, n⟩).traces = [] := by
      simp [Transcript.traces, lines]
    have length : (check text ⟨.legacy, r, n⟩).length = (missed .identifier name?).length +
        ((missed .semicolon semicolon?).length + (1 + (missed .dot dot?).length)) := by
      rw [Transcript.length, lines, List.length_append, List.length_append, List.length_append]
      rfl
    have := length_missed_le .identifier name?
    have := length_missed_le .semicolon semicolon?
    have := length_missed_le .dot dot?
    have some : 1 ≤ (check text ⟨.legacy, r, n⟩).length := by omega
    refine ⟨Transcript.not_isClean_of_traces traces some, some, by omega, traces, .inr ?_⟩
    rw [lines, List.countP_append, List.countP_append, List.countP_append, countP_missed_some,
      countP_missed name? (by decide), countP_missed semicolon? (by decide),
      countP_missed dot? (by decide)]
  · have lines := lines_check_of_ne program
    have traces : (check text ⟨.legacy, r, n⟩).traces = [] := by
      rw [Transcript.traces, lines]
      rfl
    have length : (check text ⟨.legacy, r, n⟩).length = 1 := by
      rw [Transcript.length, lines]
      rfl
    have some : 1 ≤ (check text ⟨.legacy, r, n⟩).length := Nat.le_of_eq length.symm
    exact ⟨Transcript.not_isClean_of_traces traces some, some, by omega, traces, .inl ⟨_, lines⟩⟩

end MiniPascal
