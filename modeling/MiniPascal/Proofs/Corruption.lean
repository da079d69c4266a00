import MiniPascal.Proofs.Omission

/-!
# Programs in which one token is corrupted

Under the `swallow` policy a check takes a token that does not fit for the one that is required.
This is worth something if the check is right again at once, wherever in a program the token
stands. Here an error token, which fits nowhere, is put in the place of another one.

* `Grammar.corruptible` — the parts of a phrase that may be corrupted. A check requires such a part
  without having looked for it.
* `Derivation.Corrupts` — a place in a derivation where there is such a part, with the tokens in
  front of it and behind it.
* `Grammar.unseen` — the phrases that may start with a corrupted token. They are entered whatever
  token is in front (`expand_of_corruptible`).

**Theorem (`Derivation.Corrupts.exists_walk`).** A check in front of the tokens, one of them
corrupted, goes along the derivation. It says at the corrupted token what was required, and
everything else is as it was.

For whole programs this is `check_of_corruption`.
-/

namespace MiniPascal

open Grammar

/-! ## What may be corrupted -/

namespace Grammar

/-- The parts of a phrase each of which may be corrupted. Where procedures can be called, an
assignment without its sign would be taken for a call. -/
def corruptible (d : Dialect) : Phrase → List Symbol
  | .program => [.token .identifier, .token .semicolon, .token .dot]
  | .varDeclaration | .varGroups => [.token .semicolon]
  | .varList => [.phrase .variableName, .token .colon, .phrase .type]
  | .moreVariables => [.phrase .variableName]
  | .procedureDeclaration => [.token .identifier, .token .semicolon]
  | .formals | .argumentsPart => [.token .rightParen]
  | .compound => [.token .kwEnd]
  | .assignment => if d.hasProcedures then [] else [.token .assign]
  | .conditional => [.token .kwThen]
  | .repetition => [.token .kwDo]
  | .term | .moreFactors => [.phrase .factor]
  | .factor => [.phrase .factor, .token .rightParen]
  | _ => []

/-- What may be corrupted is a name, a type, a factor or a token. -/
theorem cases_of_corruptible (d : Dialect) (p : Phrase) :
    ∀ x ∈ corruptible d p, x = .phrase .variableName ∨ x = .phrase .type ∨ x = .phrase .factor ∨
      ∃ k ∈ Kind.all, k ≠ .error ∧ x = .token k := by
  cases d <;> cases p <;> decide

/-- Where the token behind a name tells an assignment from a call, no assignment sign may be
corrupted. -/
theorem assign_not_mem_corruptible (d : Dialect) (p : Phrase) :
    d.hasProcedures → ∀ x ∈ corruptible d p, .assign ∉ starts d [] [x] := by
  cases d <;> cases p <;> decide

/-- The phrases that are entered whatever token is in front. -/
def unseen : List Phrase :=
  [.varList, .formalSection, .expression, .simpleExpression, .term, .expressionList]

theorem annotate_of_unseen {p : Phrase} (h : p ∈ unseen) (c : Kind) (ks : List Kind)
    (agenda : List Step) :
    annotate p c agenda = (p.tracesBefore ks).map .mark ++ agenda ∧ p.tracesAfter = [] := by
  simp only [unseen, List.mem_cons, List.not_mem_nil, or_false] at h
  rcases h with rfl | rfl | rfl | rfl | rfl | rfl <;> exact ⟨rfl, rfl⟩

theorem expand_corruptible_table (d : Dialect) (p : Phrase) :
    ∀ parts ∈ productions d p, ∀ i : Fin parts.length,
      parts.get i ∈ corruptible d p ∨ p ≠ .varGroups ∧ parts.get i ∈ unseen.map Symbol.phrase →
        (parts.take i).all Symbol.nullable →
          p ∈ unseen ∧ expand d p .error .error = annotate p .error (parts.map Symbol.step) := by
  cases d <;> cases p <;> decide

/-- **A check does not look for what may be corrupted.** A phrase whose first token may be corrupted
is entered with an error token in front as well. -/
theorem expand_of_corruptible {d : Dialect} {p : Phrase} {pre post : List Symbol} {x : Symbol}
    (rule : pre ++ x :: post ∈ productions d p)
    (h : x ∈ corruptible d p ∨ p ≠ .varGroups ∧ x ∈ unseen.map Symbol.phrase)
    (nullable : pre.all Symbol.nullable) (next : Kind) :
    p ∈ unseen ∧
      expand d p .error next = annotate p .error ((pre ++ x :: post).map Symbol.step) := by
  have inside : pre.length < (pre ++ x :: post).length := by simp
  have table := expand_corruptible_table d p _ rule ⟨pre.length, inside⟩
  simp only [List.get_eq_getElem, List.getElem_append_right (Nat.le_refl _), Nat.sub_self,
    List.getElem_cons_zero, List.take_left] at table
  rw [expand_eq_of_ne d next .error fun hp => Kind.noConfusion hp.2]
  exact table h nullable

/-- No phrase goes on with an error token. -/
theorem error_not_mem_goesOn (d : Dialect) (p : Phrase) : .error ∉ goesOn d p := by
  cases d <;> cases p <;> decide

theorem error_not_mem_goesOnBehind (d : Dialect) (ss : List Symbol) :
    .error ∉ goesOnBehind d ss := by
  induction ss with
  | nil => exact List.not_mem_nil
  | cons symbol ss ih =>
    cases symbol with
    | token k => exact ih
    | phrase p =>
      rw [goesOnBehind, List.mem_append, not_or]
      refine ⟨?_, ih⟩
      split
      · exact error_not_mem_goesOn d p
      · exact List.not_mem_nil

end Grammar

/-- What is reported where an error token stands in the place of a token of the kind `k`, which the
symbol derives. -/
def Symbol.corrupted (k : Kind) : Symbol → Diagnostic
  | phrase .type => .expectedType .error
  | phrase .factor => .expectedFactor .error
  | _ => .expected k .error

/-! ## Places in a derivation -/

namespace Derivation

variable {d : Dialect} {ss ss' : List Symbol} {t : Derivation d ss} {x : Symbol} {p : Phrase}
  {before after rest : List Kind} {k : Kind}

/-- Somewhere in the derivation the symbol `x` is a part of a phrase that may be corrupted. It
derives one token, of the kind `k`, behind the tokens `before` and in front of the tokens `after`.
It is not the name that a further group of variables starts with: by this name a check tells that
there is a further group. -/
inductive Corrupts :
    {ss : List Symbol} → Derivation d ss → Symbol → List Kind → Kind → List Kind → Prop
  | here {p : Phrase} {pre post ss ss' : List Symbol} {x : Symbol} {k : Kind}
      {rule : pre ++ x :: post ∈ productions d p} (u : Derivation d ss) (t : Derivation d pre)
      (bad : Derivation d [x]) (t' : Derivation d post) (u' : Derivation d ss')
      (h : x ∈ corruptible d p) (single : bad.kinds = [k]) :
      Corrupts (u.append (.phrase p rule (t.append (bad.append t')) u')) x (u.kinds ++ t.kinds) k
        (t'.kinds ++ u'.kinds)
  | inside {p : Phrase} {parts ss ss' : List Symbol} {x : Symbol} {before after : List Kind}
      {k : Kind} {rule : parts ∈ productions d p} {t : Derivation d parts} (u : Derivation d ss)
      (h : t.Corrupts x before k after) (u' : Derivation d ss')
      (name : p = .varGroups → before ≠ []) :
      Corrupts (u.append (.phrase p rule t u')) x (u.kinds ++ before) k (after ++ u'.kinds)

theorem Corrupts.kinds_eq (h : t.Corrupts x before k after) : t.kinds = before ++ k :: after := by
  induction h with
  | here u t bad t' u' h single => simp [kinds, single]
  | inside u h u' name ih => simp [kinds, ih]

/-- No assignment sign is corrupted where it tells an assignment from a call. -/
theorem ne_assign_of_corruptible (bad : Derivation d [x]) (h : x ∈ corruptible d p)
    (single : bad.kinds = [k]) : d.hasProcedures → k ≠ .assign := by
  intro calls hk
  have sign := bad.front_mem_starts (by simp [single])
  rw [single, hk] at sign
  exact assign_not_mem_corruptible d p calls x h sign

theorem Corrupts.ne_assign (h : t.Corrupts x before k after) : d.hasProcedures → k ≠ .assign := by
  induction h with
  | here u t bad t' u' h single => exact ne_assign_of_corruptible bad h single
  | inside u h u' name ih => exact ih

/-- What starts with a corrupted token is entered whatever token is in front. -/
theorem Corrupts.expand_eq {parts : List Symbol} {t : Derivation d parts}
    (h : t.Corrupts x before k after) (first : before = []) (rule : parts ∈ productions d p)
    (other : p ≠ .varGroups) (next : Kind) :
    p ∈ unseen ∧ expand d p .error next = annotate p .error (parts.map Symbol.step) := by
  induction h generalizing p with
  | @here _ _ _ _ _ _ _ inner u t bad t' u' h single =>
    obtain ⟨hu, ht⟩ := List.append_eq_nil_iff.1 first
    obtain ⟨hq, -⟩ := expand_of_corruptible inner (.inl h) (t.all_nullable ht) .error
    exact expand_of_corruptible rule (.inr ⟨other, List.mem_map_of_mem hq⟩) (u.all_nullable hu) next
  | @inside q _ _ _ _ _ _ _ inner _ u h u' name ih =>
    obtain ⟨hu, hb⟩ := List.append_eq_nil_iff.1 first
    obtain ⟨hq, -⟩ := ih hb inner fun hq => name hq hb
    exact expand_of_corruptible rule (.inr ⟨other, List.mem_map_of_mem hq⟩) (u.all_nullable hu) next

/-- A check does not see that a token behind the one in front is corrupted. -/
theorem alike_corrupted (noSign : d.hasProcedures → k ≠ .assign) (nonempty : before ≠ []) :
    Alike d (before ++ k :: rest) (before ++ .error :: rest) :=
  .append_of_ne (fun calls => iff_of_false (noSign calls) nofun) nonempty

/-- A check in front of a corrupted token takes the alternatives of what is in front of that. -/
theorem Taken.corrupt (taken : t.Taken (before ++ k :: rest))
    (noSign : d.hasProcedures → k ≠ .assign) : t.Taken (before ++ .error :: rest) := by
  cases before with
  | nil =>
    refine taken.exchange (fun calls => iff_of_false (noSign calls) nofun) (.inr ?_)
    exact error_not_mem_goesOnBehind d _
  | cons => exact taken.of_alike (alike_corrupted noSign (List.cons_ne_nil _ _))

/-- A factor that is one token leaves no trace: only one in parentheses does, by its expression. -/
theorem traces_of_factor {parts : List Symbol} (rule : parts ∈ productions d .factor)
    (t : Derivation d parts) (single : t.kinds = [k]) : t.traces = [] := by
  simp only [productions, List.mem_cons, List.not_mem_nil, or_false] at rule
  rcases rule with rfl | rfl | rfl | rfl | rfl
  · cases t with
    | phrase _ rule inside rest =>
      cases rest
      obtain rfl := List.mem_singleton.1 rule
      cases inside with
      | token _ rest =>
        cases rest
        rfl
  · cases t with
    | token _ rest =>
      cases rest
      rfl
  · cases t with
    | token _ rest =>
      cases rest
      rfl
  · cases t with
    | token _ rest =>
      obtain ⟨nonempty, -⟩ := not_takesElse_of_getLast? rest rfl
      exact absurd (List.cons.inj single).2 nonempty
  · cases t with
    | token _ rest =>
      have empty := rest.all_nullable (List.cons.inj single).2
      cases empty

/-- What may be corrupted leaves no trace. -/
theorem traces_of_corruptible (bad : Derivation d [x]) (h : x ∈ corruptible d p)
    (single : bad.kinds = [k]) : bad.traces = [] := by
  rcases cases_of_corruptible d p x h with rfl | rfl | rfl | ⟨k, -, -, rfl⟩
  · cases bad with
    | phrase _ rule inside rest =>
      cases rest
      obtain rfl := List.mem_singleton.1 rule
      cases inside with
      | token _ rest =>
        cases rest
        rfl
  · exact traces_of_omissible (p := .varList) bad (by simp [omissible])
  · cases bad with
    | phrase _ rule inside rest =>
      cases rest
      rw [kinds, kinds, List.append_nil] at single
      have quiet := traces_of_factor rule inside single
      simp [traces, quiet, Phrase.tracesBefore, Phrase.tracesAfter]
  · cases bad with
    | token _ rest =>
      cases rest
      rfl

end Derivation

section

variable {s : Settings} {p : Phrase} {parts ss ss' : List Symbol} {n i : Nat}
  {ks before after more behind : List Kind} {ls : List Line} {e : Line} {x : Symbol} {k : Kind}

/-- A check finds an error token in the place of a symbol, reports that and goes on behind it. -/
theorem Walk.corrupted (policy : s.recovery = .swallow) (h : x ∈ corruptible s.dialect p)
    (bad : Derivation s.dialect [x]) (single : bad.kinds = [k])
    (nesting : bad.nesting ≤ s.maxNesting - n) :
    ∃ i, Walk s i [x.step] ⟨.error :: ks, n⟩ [.diagnostic (x.corrupted k)] ⟨ks, n⟩ := by
  have consumed (σ : Spot) : σ.recover s.recovery = σ.advance := by
    rw [policy]
    rfl
  -- A token that is required and not there.
  have required {k : Kind} (hk : Kind.error ≠ k) :
      Walk s 1 [.expect k] ⟨.error :: ks, n⟩ [.diagnostic (.expected k .error)] ⟨ks, n⟩ := by
    have moved := Spot.move_expect_of_ne (s := s) (σ := ⟨.error :: ks, n⟩) hk
    rw [consumed] at moved
    exact .of_move moved (.nil _)
  rcases cases_of_corruptible s.dialect p x h with rfl | rfl | rfl | ⟨k', -, hk, rfl⟩
  · cases bad with
    | phrase _ rule inside rest =>
      cases rest
      obtain rfl := List.mem_singleton.1 rule
      cases inside with
      | token _ rest =>
        cases rest
        obtain rfl := (List.cons.inj single).1
        exact ⟨2, .cons (.phrase .variableName) (required (by decide))⟩
  · have recovered : Walk s 1 [.recover] ⟨.error :: ks, n⟩ [] ⟨ks, n⟩ := by
      have moved : (⟨.error :: ks, n⟩ : Spot).move s .recover = { spot := ⟨ks, n⟩ } :=
        congrArg (Spot.Move.mk [] · []) (consumed ⟨.error :: ks, n⟩)
      exact .of_move moved (.nil _)
    exact ⟨3, .cons (.phrase .type) (.cons (.report (.expectedType .error)) recovered)⟩
  · have room : n < s.maxNesting := by
      cases bad with
      | phrase _ _ inside rest =>
        have deep : inside.nesting + 1 ≤ s.maxNesting - n := (Nat.max_le.1 nesting).1
        omega
    have closed : Walk s 2 [.skip, .close] ⟨.error :: ks, n + 1⟩ [] ⟨ks, n⟩ :=
      .cons .skip (.cons .close (.nil _))
    have reported : Walk s 4 [.phrase .factor, .close] ⟨.error :: ks, n + 1⟩
        [.diagnostic (.expectedFactor .error)] ⟨ks, n⟩ :=
      .cons (.phrase .factor) (.cons (.report (.expectedFactor .error)) closed)
    exact ⟨5, .of_move (Spot.move_level .factor room) reported⟩
  · cases bad with
    | token _ rest =>
      cases rest
      obtain rfl := (List.cons.inj single).1
      exact ⟨1, required hk.symm⟩

/-- Traces can be left in front of a walk. -/
theorem Walk.marks {a : List Step} {σ σ' : Spot} (ts : List Trace) (walk : Walk s i a σ ls σ') :
    ∃ j, Walk s j (ts.map .mark ++ a) σ (ts.map .trace ++ ls) σ' := by
  induction ts with
  | nil => exact ⟨i, walk⟩
  | cons t ts ih =>
    obtain ⟨j, later⟩ := ih
    exact ⟨j + 1, later.mark t⟩

/-- A check that goes along a phrase, but for a corrupted token in it, goes along what is around
the phrase. -/
theorem Walk.exists_around_corrupted {rule : parts ∈ productions s.dialect p}
    {u : Derivation s.dialect ss} {t : Derivation s.dialect parts} {u' : Derivation s.dialect ss'}
    (taken : (u.append (.phrase p rule t u')).Taken more)
    (nesting : (u.append (.phrase p rule t u')).nesting ≤ s.maxNesting - n)
    (noSign : s.dialect.hasProcedures → k ≠ .assign) (whole : t.kinds = before ++ k :: after)
    (entered : before = [] → ∀ next, p ∈ unseen ∧
      expand s.dialect p .error next = annotate p .error (parts.map Symbol.step))
    (adds : Adds e (t.traces.map .trace) ls)
    (walk : Walk s i (parts.map Symbol.step)
      ⟨before ++ .error :: (after ++ (u'.kinds ++ more)), n + p.levels⟩ ls
      ⟨u'.kinds ++ more, n + p.levels⟩) :
    ∃ j ls', Adds e ((u.append (.phrase p rule t u')).traces.map .trace) ls' ∧
      Walk s j ((ss ++ .phrase p :: ss').map Symbol.step)
        ⟨u.kinds ++ (before ++ .error :: (after ++ (u'.kinds ++ more))), n⟩ ls' ⟨more, n⟩ := by
  obtain ⟨takenBefore, takes, -, takenBehind⟩ := Derivation.taken_append.1 taken
  have split : t.kinds ++ (u'.kinds ++ more) = before ++ k :: (after ++ (u'.kinds ++ more)) := by
    simp [whole]
  rw [Derivation.kinds, List.append_assoc, split] at takenBefore
  rw [split] at takes
  by_cases first : before = []
  · subst first
    obtain ⟨hp, steps⟩ := entered rfl (front (after ++ (u'.kinds ++ more)))
    obtain ⟨marks, quiet⟩ := annotate_of_unseen hp .error t.kinds (parts.map Symbol.step)
    obtain ⟨j, annotated⟩ := walk.marks (p.tracesBefore t.kinds)
    rw [← marks] at annotated
    refine Walk.exists_around (i := j) (takenBefore.corrupt noSign) takenBehind steps nesting
      adds ?_
    simpa [quiet] using annotated
  · have starting : t.kinds ≠ [] →
        front (before ++ .error :: (after ++ (u'.kinds ++ more))) = front t.kinds := by
      intro _
      rw [whole, front_append _ first, front_append _ first]
    obtain ⟨j, annotated⟩ := walk.annotated rule t starting
    exact Walk.exists_around (takenBefore.corrupt noSign) takenBehind
      (takes.of_alike (Derivation.alike_corrupted noSign first)) nesting adds annotated

/-- **A check swallows what is corrupted.** -/
theorem Derivation.Corrupts.exists_walk {t : Derivation s.dialect ss}
    (h : t.Corrupts x before k after) (policy : s.recovery = .swallow) (taken : t.Taken more)
    (nesting : t.nesting ≤ s.maxNesting - n) :
    ∃ i ls, Adds (.diagnostic (x.corrupted k)) (t.traces.map .trace) ls ∧
      Walk s i (ss.map Symbol.step) ⟨before ++ .error :: (after ++ more), n⟩ ls ⟨more, n⟩ := by
  induction h generalizing more n with
  | @here p pre post ss ss' x k rule u t bad t' u' h single =>
    have noSign := ne_assign_of_corruptible bad h single
    obtain ⟨-, -, inner, -⟩ := taken_append.1 taken
    obtain ⟨takenBefore, takenRest⟩ := taken_append.1 inner
    obtain ⟨-, takenBehind⟩ := taken_append.1 takenRest
    have deep := nesting
    rw [nesting_append, Derivation.nesting, Nat.max_le, Nat.max_le, nesting_append, nesting_append]
      at deep
    have split : (bad.append t').kinds ++ (u'.kinds ++ more) =
        [] ++ k :: (t'.kinds ++ (u'.kinds ++ more)) := by simp [single]
    rw [split] at takenBefore
    obtain ⟨i₁, walkBefore⟩ :=
      (takenBefore.corrupt noSign).exists_walk (s := s) (n := n + p.levels) (by omega)
    have swallowed : ∃ i, Walk s i [x.step]
        ⟨.error :: (t'.kinds ++ (u'.kinds ++ more)), n + p.levels⟩ [.diagnostic (x.corrupted k)]
        ⟨t'.kinds ++ (u'.kinds ++ more), n + p.levels⟩ :=
      Walk.corrupted policy h bad single (by omega)
    obtain ⟨i₂, walkBad⟩ := swallowed
    obtain ⟨i₃, walkBehind⟩ := takenBehind.exists_walk (s := s) (n := n + p.levels) (by omega)
    have walk := walkBefore.append (walkBad.append walkBehind)
    have adds : Adds (.diagnostic (x.corrupted k)) ((t.append (bad.append t')).traces.map .trace)
        (t.traces.map .trace ++ ([.diagnostic (x.corrupted k)] ++ t'.traces.map .trace)) :=
      ⟨t.traces.map .trace, t'.traces.map .trace, by simp [traces_of_corruptible bad h single], rfl⟩
    have entered (first : t.kinds = []) :=
      expand_of_corruptible rule (.inl h) (t.all_nullable first)
    have whole : (t.append (bad.append t')).kinds = t.kinds ++ k :: t'.kinds := by simp [single]
    obtain ⟨j, ls, adds, walk⟩ := Walk.exists_around_corrupted taken nesting noSign whole entered
      adds (by simpa using walk)
    exact ⟨j, ls, adds, by simpa using walk⟩
  | @inside p parts ss ss' x before after k rule t u h u' name ih =>
    obtain ⟨-, -, inner, -⟩ := taken_append.1 taken
    have deep := nesting
    rw [nesting_append, Derivation.nesting, Nat.max_le, Nat.max_le] at deep
    obtain ⟨i, ls, adds, walk⟩ := ih (n := n + p.levels) inner (by omega)
    have entered (first : before = []) := h.expand_eq first rule fun hp => name hp first
    obtain ⟨j, ls, adds, walk⟩ := Walk.exists_around_corrupted taken nesting h.ne_assign h.kinds_eq
      entered adds walk
    exact ⟨j, ls, adds, by simpa using walk⟩

end

/-! ## Whole programs -/

/-- **A corrupted token costs one diagnostic.** Put an error token in the place of a token of a
program that a check requires without having looked for it. Then the check says what it says about
the program, and one thing more: what was required where the error token is. -/
theorem check_of_corruption {s : Settings} {t : Tree s.dialect .program} {x : Symbol}
    {before after : List Kind} {k : Kind} (policy : s.recovery = .swallow)
    (nesting : t.nesting ≤ s.maxNesting) (nearest : t.ElsesNearest)
    (h : t.Corrupts x before k after) :
    (∀ text, kinds text s.dialect = before ++ k :: after →
      (check text s).lines = t.traces.map .trace) ∧
    ∀ text, kinds text s.dialect = before ++ .error :: after →
      Adds (.diagnostic (x.corrupted k)) (t.traces.map .trace) (check text s).lines := by
  constructor
  · intro text whole
    refine lines_check_of_tree ?_ nesting nearest
    rw [map_kind_tokenize, whole, ← h.kinds_eq]
    exact List.prefix_append _ _
  · intro text damaged
    have fits : t.Fits s.maxNesting t.kinds [] :=
      ⟨List.append_nil _, nesting, nearest, fun takes => absurd takes t.not_takesElse⟩
    have taken := fits.taken followed_program (Kind.mem_all _)
    obtain ⟨i, ls, adds, walk⟩ := h.exists_walk (n := 0) policy taken nesting
    rw [List.append_nil, ← damaged] at walk
    rw [walk.lines_check]
    exact adds

section

open MiniPascal.Derivation

/-- The number behind the second IF is corrupted. -/
theorem check_of_corruption_factor :
    Adds (.diagnostic (.expectedFactor .error)) (Tree.dangling.traces.map .trace)
      (check "program p; begin if 1 then if ? then f else g end."
        ⟨.extended, .swallow, 3⟩).lines :=
  have corrupts : Tree.dangling.Corrupts (.phrase .factor)
      [.kwProgram, .identifier, .semicolon, .kwBegin, .kwIf, .integerLiteral, .kwThen, .kwIf]
      .integerLiteral [.kwThen, .identifier, .kwElse, .identifier, .kwEnd, .dot] :=
    .inside nil
      (.inside (token .kwProgram (token .identifier (token .semicolon nil)))
        (.inside (phrase .procedures List.mem_cons_self nil nil)
          (.inside (token .kwBegin nil)
            (.inside nil
              (.inside (token .kwIf (number (token .kwThen nil)))
                (.inside nil
                  (.inside (token .kwIf nil)
                    (.inside nil
                      (.here nil nil
                        (phrase .factor (.tail _ (.head _)) (token .integerLiteral nil) nil)
                        _ _ (by decide) rfl)
                      _ (by decide))
                    _ (by decide))
                  nil (by decide))
                _ (by decide))
              nil (by decide))
            _ (by decide))
          nil (by decide))
        _ (by decide))
      nil (by decide)
  (check_of_corruption (s := ⟨.extended, .swallow, 3⟩) rfl (by decide) (by decide) corrupts).2 _
    (by decide +kernel)

end

end MiniPascal
