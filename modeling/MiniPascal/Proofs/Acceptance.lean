import MiniPascal.Proofs.Passage

/-!
# What a check accepts

A check is a greedy walk with one token of lookahead; the grammar is a set of rules without any.
This module ties the two together.

* `Derivation.Fits` — a derivation that a check can follow: it derives what is ahead, it needs no
  more levels than are left, each ELSE belongs to the nearest IF, and what comes behind is no ELSE
  that it would take.
* `Derivation.Taken` — a derivation all of whose alternatives are taken by the check.

**Theorem (`Passage.exists_taken`, soundness).** What is passed without a report is what a fitting
derivation derives, and the check has taken its alternatives.

**Theorem (`Derivation.exists_walk`, completeness).** A fitting derivation is walked through without
a report, and the walk leaves the traces of the derivation. The check takes its alternatives
(`Derivation.Fits.taken`), and that is all that is needed (`Derivation.Taken.exists_walk`).

Together they say which texts are accepted (`isClean_check_iff`) and what is said about them
(`lines_check_of_tree`).
-/

namespace MiniPascal

open Grammar

/-! ## Derivations that fit -/

/-- A check with `room` levels left, in front of the tokens `ks`, can follow the derivation and
comes out in front of the tokens `more`. -/
structure Derivation.Fits {d : Dialect} {ss : List Symbol} (t : Derivation d ss) (room : Nat)
    (ks more : List Kind) : Prop where
  kinds : t.kinds ++ more = ks
  nesting : t.nesting ≤ room
  nearest : t.ElsesNearest
  takesElse : t.TakesElse → front more ≠ .kwElse

namespace Derivation

variable {d : Dialect} {ss : List Symbol} {room : Nat} {ks more : List Kind}

@[simp] theorem fits_nil : (nil : Derivation d []).Fits room ks more ↔ more = ks :=
  ⟨fun h => h.kinds, fun h => ⟨h, Nat.zero_le room, trivial, nofun⟩⟩

theorem fits_token {k : Kind} {rest : Derivation d ss} :
    (token k rest).Fits room ks more ↔ ∃ behind, ks = k :: behind ∧ rest.Fits room behind more := by
  constructor
  · intro ⟨hk, hn, he, ht⟩
    exact ⟨rest.kinds ++ more, hk.symm, rfl, hn, he, ht⟩
  · intro ⟨behind, hk, hr⟩
    have derived : k :: (rest.kinds ++ more) = ks := by rw [hr.kinds, hk]
    exact ⟨derived, hr.nesting, hr.nearest, hr.takesElse⟩

/-- What comes behind a phrase is derived by the rest; it is no ELSE if the phrase would take it. -/
theorem fits_phrase {p : Phrase} {parts : List Symbol} {rule : parts ∈ productions d p}
    {inside : Derivation d parts} {rest : Derivation d ss} :
    (phrase p rule inside rest).Fits room ks more ↔
      ∃ behind, p.levels ≤ room ∧ inside.Fits (room - p.levels) ks behind ∧
        rest.Fits room behind more ∧
        (p = .elsePart → inside.kinds = [] → front behind ≠ .kwElse) := by
  constructor
  · intro fits
    obtain ⟨hk, hn, ⟨he, he', els⟩, ht⟩ := fits
    rw [nesting, Nat.max_le] at hn
    have behind (hi : inside.TakesElse ∨ p = .elsePart ∧ inside.kinds = []) :
        front (rest.kinds ++ more) ≠ .kwElse := by
      cases hr : rest.kinds with
      | nil => exact ht (.inr ⟨hr, hi⟩)
      | cons k ks => simpa [hr] using els hi
    have split : inside.kinds ++ (rest.kinds ++ more) = ks := by
      rw [← List.append_assoc]
      exact hk
    exact ⟨rest.kinds ++ more, by omega, ⟨split, by omega, he, fun hi => behind (.inl hi)⟩,
      ⟨rfl, hn.2, he', fun hr => ht (.inl hr)⟩, fun hp hk => behind (.inr ⟨hp, hk⟩)⟩
  · intro fits
    obtain ⟨behind, room, inner, later, els⟩ := fits
    have noElse (hi : inside.TakesElse ∨ p = .elsePart ∧ inside.kinds = []) :
        front (rest.kinds ++ more) ≠ .kwElse := by
      rw [later.kinds]
      rcases hi with hi | ⟨hp, hk⟩
      · exact inner.takesElse hi
      · exact els hp hk
    refine ⟨?_, ?_, ⟨inner.nearest, later.nearest, ?_⟩, ?_⟩
    · rw [kinds, List.append_assoc, later.kinds, inner.kinds]
    · have := inner.nesting
      have := later.nesting
      rw [nesting, Nat.max_le]
      omega
    · intro hi
      cases hr : rest.kinds with
      | nil => decide
      | cons k ks => simpa [hr] using noElse hi
    · intro ht
      rcases ht with ht | ⟨hr, hi⟩
      · exact later.takesElse ht
      · simpa [hr] using noElse hi

end Derivation

/-! ## Derivations that are taken -/

/-- In front of the tokens `ks`, the check of a phrase takes the alternative `parts`. -/
def Grammar.Takes (d : Dialect) (p : Phrase) (parts : List Symbol) (ks : List Kind) : Prop :=
  expand d p (front ks) (front ks.tail) = annotate p (front ks) (parts.map Symbol.step)

/-- A check of what is derived, in front of the tokens `more`, takes all the alternatives of the
derivation. -/
def Derivation.Taken : {ss : List Symbol} → Derivation d ss → List Kind → Prop
  | _, nil, _ => True
  | _, token _ rest, more => rest.Taken more
  | _, @phrase _ p parts _ _ inside rest, more =>
    Takes d p parts (inside.kinds ++ (rest.kinds ++ more)) ∧ inside.Taken (rest.kinds ++ more) ∧
      rest.Taken more

/-! ## Soundness -/

/-- **Soundness.** What is passed without a report is derived from what the agenda checks, and the
alternatives of the derivation are those that were taken. -/
theorem Passage.exists_taken {s : Settings} {a : List Step} {σ σ' : Spot} {ls : List Line}
    (h : Passage s a σ ls σ') (clean : reports ls = []) :
    ∃ t : Derivation s.dialect (Step.form a),
      t.Fits (s.maxNesting - σ.depth) σ.ahead σ'.ahead ∧ t.Taken σ'.ahead := by
  induction h with
  | nil σ => exact ⟨.nil, Derivation.fits_nil.2 rfl, trivial⟩
  | mark t _ ih =>
    obtain ⟨rest, fits⟩ := ih clean
    exact ⟨rest, fits⟩
  | finish _ ih =>
    obtain ⟨rest, fits⟩ := ih clean
    exact ⟨rest, fits⟩
  | @expect k _ _ _ _ k_ne here _ ih =>
    obtain ⟨rest, fits, taken⟩ := ih clean
    exact ⟨.token k rest, Derivation.fits_token.2 ⟨_, eq_cons_of_front here k_ne, fits⟩, taken⟩
  | missing => cases clean
  | refused => cases clean
  | @alternative p parts b σ σ' behind _ _ rule room steps _ _ ihi ihl =>
    rw [reports_append, List.append_eq_nil_iff] at clean
    have inside := ihi clean.1
    rw [form_annotate, Step.form_map_step] at inside
    obtain ⟨inside, fits, taken⟩ := inside
    obtain ⟨rest, fits', taken'⟩ := ihl clean.2
    rw [Step.form_step_cons]
    refine ⟨.phrase p rule inside rest, Derivation.fits_phrase.2
      ⟨behind, Phrase.levels_le.2 fun hp => Nat.sub_pos_of_lt (room hp), ?_, fits', ?_⟩, ?_⟩
    · rw [Nat.sub_sub]
      exact fits
    · intro hp empty
      subst hp
      have same : behind = σ.ahead := by rw [← fits.kinds, empty, List.nil_append]
      rw [same]
      exact front_ne_kwElse rule steps empty
    · rw [Derivation.Taken, fits'.kinds, fits.kinds]
      exact ⟨steps, taken, taken'⟩
  | fault _ fault inside =>
    obtain ⟨es, hes⟩ := inside.reports_of_fault fault
    rw [reports_append, hes] at clean
    cases clean

/-- Soundness, with all that a tree has to do to fit. -/
theorem Passage.exists_derivation {s : Settings} {a : List Step} {σ σ' : Spot} {ls : List Line}
    (h : Passage s a σ ls σ') (clean : reports ls = []) :
    ∃ t : Derivation s.dialect (Step.form a),
      t.Fits (s.maxNesting - σ.depth) σ.ahead σ'.ahead := by
  obtain ⟨t, fits, -⟩ := h.exists_taken clean
  exact ⟨t, fits⟩

/-- Soundness for walks, without the tree. -/
theorem Walk.derives {s : Settings} {i : Nat} {a : List Step} {σ σ' : Spot} {ls : List Line}
    (walk : Walk s i a σ ls σ') (regular : ∀ step ∈ a, step.regular) (clean : reports ls = []) :
    ∃ read, σ.ahead = read ++ σ'.ahead ∧ Derives s.dialect (Step.form a) read := by
  obtain ⟨t, fits⟩ := (walk.passage regular).exists_derivation clean
  exact ⟨t.kinds, fits.kinds.symm, t, rfl⟩

/-! ## Completeness -/

section

variable {d : Dialect} {p : Phrase} {parts : List Symbol}

variable {s : Settings} {i n : Nat} {σ : Spot}

/-- A trace can be left behind the first token. -/
theorem Walk.mark_behind {k : Kind} {a : List Step} {ks : List Kind} {ls : List Line}
    (walk : Walk s i (.expect k :: a) ⟨k :: ks, n⟩ ls σ) (t : Trace) :
    ∃ j, Walk s j (.expect k :: .mark t :: a) ⟨k :: ks, n⟩ (.trace t :: ls) σ := by
  have moved := Spot.move_expect_cons (s := s) (k := k) ks n
  obtain ⟨j, ls, rfl, rfl, later⟩ := walk.move moved
  exact ⟨_, .of_move moved (later.mark t)⟩

/-- A walk over the parts of a phrase becomes one over the steps for the phrase: it leaves what is
told about the phrase itself. The walk need not go along the derivation, but it starts as that
does. -/
theorem Walk.annotated {ks : List Kind} {ls : List Line} (rule : parts ∈ productions d p)
    (t : Derivation d parts) (starting : t.kinds ≠ [] → front ks = front t.kinds)
    (walk : Walk s i (parts.map Symbol.step) ⟨ks, n⟩ ls σ) :
    ∃ j, Walk s j (annotate p (front ks) (parts.map Symbol.step)) ⟨ks, n⟩
      ((p.tracesBefore t.kinds).map .trace ++ ls ++ p.tracesAfter.map .trace) σ := by
  cases p with
  | program =>
    have finish : Walk s 1 [.finish] σ [] σ := .cons .finish (.nil σ)
    have finished := walk.append finish
    rw [List.append_nil] at finished
    refine ⟨i + 1, ?_⟩
    rw [Phrase.tracesAfter_of_ne (by decide), List.map_nil, List.append_nil]
    exact finished
  | compound =>
    obtain rfl := List.mem_singleton.1 rule
    cases t with
    | token k rest =>
      have ending : Walk s 1 [.mark .compoundEnd] σ [.trace .compoundEnd] σ :=
        .cons (.mark .compoundEnd) (.nil σ)
      have begins : ks = .kwBegin :: ks.tail :=
        eq_cons_of_front (starting (List.cons_ne_nil _ _)) (by decide)
      rw [begins] at walk ⊢
      obtain ⟨j, begun⟩ := Walk.mark_behind walk .compoundBegin
      exact ⟨j + 1, begun.append ending⟩
  | moreCommands =>
    simp only [productions, List.mem_cons, List.not_mem_nil, or_false] at rule
    rw [Phrase.tracesAfter_of_ne (by decide), List.map_nil, List.append_nil]
    rcases rule with rfl | rfl
    · cases t with
      | nil => exact ⟨i, walk⟩
    · cases t with
      | token k rest =>
        have begins : ks = .semicolon :: ks.tail :=
          eq_cons_of_front (starting (List.cons_ne_nil _ _)) (by decide)
        rw [begins] at walk ⊢
        exact Walk.mark_behind walk .separator
  | command =>
    rw [Phrase.tracesAfter_of_ne (by decide), List.map_nil, List.append_nil]
    have nonempty : t.kinds ≠ [] := fun empty => absurd (t.nullable_of_kinds rule empty) (by decide)
    rw [starting nonempty]
    cases hk : t.kinds with
    | nil => exact absurd hk nonempty
    | cons first others => exact ⟨i + 1, walk.mark (.command first)⟩
  | assignment =>
    rw [Phrase.tracesAfter_of_ne (by decide), List.map_nil, List.append_nil]
    exact ⟨i + 1, walk.mark .assignment⟩
  | expression =>
    rw [Phrase.tracesAfter_of_ne (by decide), List.map_nil, List.append_nil]
    exact ⟨i + 1, walk.mark .expression⟩
  | _ =>
    rw [Phrase.tracesAfter_of_ne (by decide), List.map_nil, List.append_nil]
    exact ⟨i, walk⟩

/-- A check takes the alternatives of a derivation that fits. -/
theorem Derivation.Fits.taken {ss : List Symbol} {t : Derivation d ss} {room : Nat}
    {after ks more : List Kind} (fits : t.Fits room ks more) (followed : Followed d after ss)
    (hm : front more ∈ after) : t.Taken more := by
  induction t generalizing after ks more room with
  | nil => trivial
  | token k rest ih =>
    obtain ⟨behind, rfl, fits'⟩ := fits_token.1 fits
    exact ih fits' followed hm
  | @phrase p parts ss rule inside rest ihi ihr =>
    obtain ⟨behind, -, inner, later, els⟩ := fits_phrase.1 fits
    obtain rfl := later.kinds
    have hb : front (rest.kinds ++ more) ∈ follow d p :=
      followed.1 _ (Derives.front_mem ⟨rest, rfl⟩ hm)
    refine ⟨?_, ihi inner (followed_parts d p parts rule) hb, ihr later followed.2 hm⟩
    refine expand_eq rule ⟨inside, rfl⟩ hb ?_
    intro hp empty
    refine els hp ?_
    subst empty
    cases inside
    rfl

/-- A walk over the alternative that a check takes, and one over what is behind the phrase, make a
walk over the phrase and what is behind it. -/
theorem Walk.enter_taken {ks behind : List Kind} {ls ls' : List Line} {b : List Step} {j : Nat}
    (takes : Takes s.dialect p parts ks) (rule : parts ∈ productions s.dialect p)
    (t : Derivation s.dialect parts) (starting : t.kinds ≠ [] → front ks = front t.kinds)
    (room : p.levels ≤ s.maxNesting - n)
    (inside : Walk s i (parts.map Symbol.step) ⟨ks, n + p.levels⟩ ls ⟨behind, n + p.levels⟩)
    (rest : Walk s j b ⟨behind, n⟩ ls' σ) :
    ∃ k, Walk s k ((Symbol.phrase p).step :: b) ⟨ks, n⟩
      ((p.tracesBefore t.kinds).map .trace ++ ls ++ p.tracesAfter.map .trace ++ ls') σ := by
  obtain ⟨i, inside⟩ := inside.annotated rule t starting
  rw [← takes] at inside
  have open? : p.opensLevel → n < s.maxNesting := by
    intro hp
    exact Nat.lt_of_sub_pos (Phrase.levels_le.1 room hp)
  exact Walk.enter open? inside rest

/-- A check that takes the alternatives of a derivation goes along it, and tells what it says. -/
theorem Derivation.Taken.exists_walk {ss : List Symbol} {t : Derivation s.dialect ss}
    {more : List Kind} (taken : t.Taken more) (nesting : t.nesting ≤ s.maxNesting - n) :
    ∃ i, Walk s i (ss.map Symbol.step) ⟨t.kinds ++ more, n⟩ (t.traces.map .trace) ⟨more, n⟩ := by
  induction t generalizing more n with
  | nil => exact ⟨0, .nil _⟩
  | token k rest ih =>
    obtain ⟨i, walk⟩ := ih taken nesting
    exact ⟨i + 1, .of_move (Spot.move_expect_cons _ n) walk⟩
  | @phrase p parts ss rule inside rest ihi ihr =>
    obtain ⟨takes, inner, later⟩ := taken
    rw [Derivation.nesting, Nat.max_le] at nesting
    obtain ⟨deep, nesting⟩ := nesting
    obtain ⟨i, walkInside⟩ := ihi (n := n + p.levels) inner (by omega)
    obtain ⟨j, walkBehind⟩ := ihr later nesting
    have whole := walkInside.enter_taken takes rule inside (front_append _) (by omega) walkBehind
    simpa only [Derivation.kinds, Derivation.traces, List.map_cons, List.map_append,
      List.append_assoc] using whole

/-- **Completeness.** A check goes along a derivation that fits, and tells what the derivation
says. -/
theorem Derivation.exists_walk {ss : List Symbol} (t : Derivation s.dialect ss)
    {after ks more : List Kind} (followed : Followed s.dialect after ss)
    (hm : front more ∈ after) (fits : t.Fits (s.maxNesting - n) ks more) :
    ∃ i, Walk s i (ss.map Symbol.step) ⟨ks, n⟩ (t.traces.map .trace) ⟨more, n⟩ := by
  obtain ⟨i, walk⟩ := (fits.taken followed hm).exists_walk fits.nesting
  rw [fits.kinds] at walk
  exact ⟨i, walk⟩

end

/-! ## Whole programs -/

/-- No rule asks for the end of a text, so no derivation does. -/
theorem endOfText_not_mem_kinds {d : Dialect} {ss : List Symbol} (t : Derivation d ss)
    (h : .token .endOfText ∉ ss) : .endOfText ∉ t.kinds := by
  intro hk
  refine t.forall_mem_kinds (P := fun symbol => symbol ≠ .token .endOfText) ?_ ?_ _ hk rfl
  · intro p _ parts rule symbol hs e
    rw [e] at hs
    exact endOfText_not_mem_parts d p parts rule hs
  · intro symbol hs e
    rw [e] at hs
    exact h hs

/-- Symbols of which the last is a token derive something that takes no ELSE. -/
theorem not_takesElse_of_getLast? {d : Dialect} {ss : List Symbol} {k : Kind} (t : Derivation d ss)
    (h : ss.getLast? = some (.token k)) : t.kinds ≠ [] ∧ ¬t.TakesElse := by
  induction t with
  | nil => cases h
  | @token k ss rest ih =>
    refine ⟨List.cons_ne_nil _ _, ?_⟩
    cases ss with
    | nil =>
      cases rest
      exact id
    | cons => exact (ih h).2
  | @phrase p parts ss rule inside rest _ ih =>
    cases ss with
    | nil => cases h
    | cons =>
      obtain ⟨nonempty, no⟩ := ih h
      constructor
      · intro empty
        exact nonempty (List.append_eq_nil_iff.1 empty).2
      · intro takes
        rcases takes with takes | ⟨empty, -⟩
        · exact no takes
        · exact nonempty empty

/-- A program ends with a DOT, whatever comes behind it. -/
theorem Tree.not_takesElse {d : Dialect} (t : Tree d .program) : ¬t.TakesElse := by
  cases t with
  | phrase _ rule inside rest =>
    obtain rfl := List.mem_singleton.1 rule
    cases rest
    intro takes
    rcases takes with takes | ⟨-, takes | ⟨other, -⟩⟩
    · exact takes
    · exact (not_takesElse_of_getLast? inside rfl).2 takes
    · cases other

/-- The tokens of a text start with those of a program: then there is more behind them. -/
theorem Tree.fits_of_isPrefix {s : Settings} {text : String} {t : Tree s.dialect .program}
    (h : t.kinds <+: (tokenize text s.dialect).map Token.kind) (nesting : t.nesting ≤ s.maxNesting)
    (nearest : t.ElsesNearest) : ∃ more, t.Fits (s.maxNesting - 0) (kinds text s.dialect) more := by
  rw [map_kind_tokenize, List.prefix_concat_iff] at h
  rcases h with whole | ⟨more, hm⟩
  · have : .endOfText ∉ t.kinds := endOfText_not_mem_kinds t (by decide)
    rw [whole] at this
    exact absurd (List.mem_append_right _ (List.mem_singleton_self _)) this
  · exact ⟨more, hm, nesting, nearest, fun h => absurd h t.not_takesElse⟩

/-- A check goes along the tree of a program, if there is one. -/
theorem Tree.exists_walk {s : Settings} {text : String} {t : Tree s.dialect .program}
    (h : t.kinds <+: (tokenize text s.dialect).map Token.kind) (nesting : t.nesting ≤ s.maxNesting)
    (nearest : t.ElsesNearest) :
    ∃ i σ, Walk s i [.phrase .program] ⟨kinds text s.dialect, 0⟩ (t.traces.map .trace) σ := by
  obtain ⟨more, fits⟩ := t.fits_of_isPrefix h nesting nearest
  obtain ⟨i, walk⟩ := Derivation.exists_walk t followed_program (Kind.mem_all _) fits
  exact ⟨i, _, walk⟩

/-- **Acceptance.** The check of a text finds nothing wrong exactly if the tokens of the text start
with those of a program: one that needs no more levels than there are and in which each ELSE belongs
to the nearest IF. What comes behind the program does not matter. -/
theorem isClean_check_iff (text : String) (s : Settings) :
    (check text s).isClean ↔
      ∃ t : Tree s.dialect .program, t.kinds <+: (tokenize text s.dialect).map Token.kind ∧
        t.nesting ≤ s.maxNesting ∧ t.ElsesNearest := by
  rw [isClean_iff_reports]
  constructor
  · intro clean
    obtain ⟨i, σ, walk⟩ := exists_walk_check text s
    have regular : ∀ step ∈ [Step.phrase .program], step.regular := by decide
    obtain ⟨t, fits⟩ := (walk.passage regular).exists_derivation clean
    refine ⟨t, ?_, fits.nesting, fits.nearest⟩
    rw [map_kind_tokenize, List.prefix_concat_iff]
    exact .inr ⟨σ.ahead, fits.kinds⟩
  · intro ⟨t, h, nesting, nearest⟩
    obtain ⟨i, σ, walk⟩ := t.exists_walk h nesting nearest
    rw [walk.lines_check, reports_map_trace]

/-- **What is said about a program.** The lines of its check are the traces of its tree, in order,
and nothing else. -/
theorem lines_check_of_tree {text : String} {s : Settings} {t : Tree s.dialect .program}
    (h : t.kinds <+: (tokenize text s.dialect).map Token.kind) (nesting : t.nesting ≤ s.maxNesting)
    (nearest : t.ElsesNearest) : (check text s).lines = t.traces.map Line.trace := by
  obtain ⟨i, σ, walk⟩ := t.exists_walk h nesting nearest
  exact walk.lines_check

section

open MiniPascal.Derivation

variable {ss : List Symbol}

/-- An expression that is a number, in front of something else. -/
def Derivation.number (rest : Derivation .extended ss) :
    Derivation .extended (.phrase .expression :: ss) :=
  phrase .expression (by decide)
    (phrase .simpleExpression (by decide)
      (phrase .term (by decide)
        (phrase .factor (by decide) (token .integerLiteral nil)
          (phrase .moreFactors (by decide) nil nil))
        (phrase .moreTerms (by decide) nil nil))
      (phrase .relationPart (by decide) nil nil))
    rest

/-- A command that calls a procedure without arguments, in front of something else. -/
def Derivation.call (rest : Derivation .extended ss) :
    Derivation .extended (.phrase .command :: ss) :=
  phrase .command (by decide)
    (phrase .procedureCall (by decide)
      (token .identifier (phrase .argumentsPart (by decide) nil nil)) nil)
    rest

/-- The tree of a program in which an ELSE could belong to two IFs. -/
def Tree.dangling : Tree .extended .program :=
  phrase .program (by decide)
    (token .kwProgram (token .identifier (token .semicolon
      (phrase .block (by decide)
        (phrase .procedures (by decide) nil
          (phrase .compound (by decide)
            (token .kwBegin
              (phrase .command (by decide)
                (phrase .conditional (by decide)
                  (token .kwIf (number (token .kwThen
                    (phrase .command (by decide)
                      (phrase .conditional (by decide)
                        (token .kwIf (number (token .kwThen (call
                          (phrase .elsePart (by decide) (token .kwElse (call nil)) nil)))))
                        nil)
                      (phrase .elsePart (by decide) nil nil)))))
                  nil)
                (phrase .moreCommands (by decide) nil (token .kwEnd nil))))
            nil))
        (token .dot nil)))))
    nil

/-- The ELSE belongs to the inner command, so the outer one has none, and all is as its tree
says. -/
theorem lines_check_of_tree_dangling :
    (check "program p; begin if 1 then if 2 then f else g end." ⟨.extended, .insert, 3⟩).lines =
      [.trace .compoundBegin, .trace (.command .kwIf), .trace .expression,
        .trace (.command .kwIf), .trace .expression, .trace (.command .identifier),
        .trace (.command .identifier), .trace .compoundEnd] :=
  (lines_check_of_tree (t := Tree.dangling) (by decide +kernel) (by decide) (by decide)).trans rfl

end

end MiniPascal
