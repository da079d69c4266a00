import MiniPascal.Proofs.Continuation

/-!
# Programs in which one token is missing

Under the `insert` policy a check that does not find a token takes it to have been there. This is
worth something if the check is right again at once, wherever in a program the token is missing.

* `Grammar.omissible` — the parts of a phrase that may be missing, in each dialect. A table tells
  what they have in common (`Insertable`): what comes behind such a part is taken neither for it nor
  for more of what is in front of it.
* `Derivation.Omits` — a place in a derivation where there is such a part, with the tokens in front
  of it and behind it.
* `Adds` — some lines, and one more among them.

**Theorem (`Derivation.Omits.exists_walk`).** A check in front of the remaining tokens goes along
the derivation. Where the part is missing it says so, and everything else is as it was.

For whole programs this is `check_of_omission`.
-/

namespace MiniPascal

open Grammar

/-! ## What may be missing -/

namespace Grammar

/-- The parts of a phrase each of which may be missing. Where procedures can be called, an
assignment without its sign would be taken for a call. -/
def omissible (d : Dialect) : Phrase → List Symbol
  | .program => [.token .identifier, .token .semicolon, .token .dot]
  | .varDeclaration | .varGroups => [.token .semicolon]
  | .varList => [.token .colon, .phrase .type]
  | .procedureDeclaration => [.token .identifier, .token .semicolon]
  | .assignment => if d.hasProcedures then [] else [.token .assign]
  | .argumentsPart => [.token .rightParen]
  | .conditional => [.token .kwThen]
  | .repetition => [.token .kwDo]
  | _ => []

/-- The kinds that come behind a phrase where a program is all there is. -/
def ends (d : Dialect) (p : Phrase) : List Kind :=
  if p = .program then [.endOfText] else follow d p

/-- The part `x` can be inserted between the parts `pre` and `post` of a phrase. -/
structure Insertable (d : Dialect) (p : Phrase) (pre : List Symbol) (x : Symbol)
    (post : List Symbol) : Prop where
  notFirst : ¬pre.all Symbol.nullable
  noSign : d.hasProcedures → .assign ∉ starts d [.endOfText] [x]
  behind : ∀ c ∈ starts d (ends d p) post,
    c ∉ starts d [.endOfText] [x] ∧ c ∉ goesOnBehind d pre ∧ (d.hasProcedures → c ≠ .assign)

theorem omissible_table (d : Dialect) (p : Phrase) :
    ∀ parts ∈ productions d p, ∀ i : Fin parts.length, parts[i] ∈ omissible d p →
      ¬(parts.take i).all Symbol.nullable ∧
      (d.hasProcedures → .assign ∉ starts d [.endOfText] [parts[i]]) ∧
      ∀ c ∈ starts d (ends d p) (parts.drop (i + 1)),
        c ∉ starts d [.endOfText] [parts[i]] ∧ c ∉ goesOnBehind d (parts.take i) ∧
          (d.hasProcedures → c ≠ .assign) := by
  cases d <;> cases p <;> decide

theorem Insertable.of_mem {d : Dialect} {p : Phrase} {pre post : List Symbol} {x : Symbol}
    (rule : pre ++ x :: post ∈ productions d p) (h : x ∈ omissible d p) :
    Insertable d p pre x post := by
  have inside : pre.length < (pre ++ x :: post).length := by simp
  have table := omissible_table d p _ rule ⟨pre.length, inside⟩
  simp only [Fin.getElem_fin, List.getElem_append_right (Nat.le_refl _), Nat.sub_self,
    List.getElem_cons_zero, List.take_left, List.drop_length_add_append, List.drop_succ_cons,
    List.drop_zero] at table
  obtain ⟨notFirst, noSign, behind⟩ := table h
  exact ⟨notFirst, noSign, behind⟩

/-- What may be missing is a type or a token. -/
theorem cases_of_omissible (d : Dialect) (p : Phrase) :
    ∀ x ∈ omissible d p, x = .phrase .type ∨ ∃ k ∈ Kind.all, x = .token k := by
  cases d <;> cases p <;> decide

theorem program_not_mem_parts (d : Dialect) (p : Phrase) :
    ∀ parts ∈ productions d p, .phrase .program ∉ parts := by
  cases d <;> cases p <;> decide

end Grammar

/-- What is reported where a symbol is missing in front of a token of the kind `c`. -/
def Symbol.missing (c : Kind) : Symbol → Diagnostic
  | token k => .expected k c
  | phrase _ => .expectedType c

/-! ## Places in a derivation -/

namespace Derivation

variable {d : Dialect} {ss ss' : List Symbol} {t : Derivation d ss} {x : Symbol} {p : Phrase}
  {before after more behind : List Kind} {k : Kind}

/-- Somewhere in the derivation the symbol `x` is a part of a phrase that may miss it. It derives
one token, of the kind `k`, behind the tokens `before` and in front of the tokens `after`. -/
inductive Omits :
    {ss : List Symbol} → Derivation d ss → Symbol → List Kind → Kind → List Kind → Prop
  | here {p : Phrase} {pre post ss ss' : List Symbol} {x : Symbol} {k : Kind}
      {rule : pre ++ x :: post ∈ productions d p} (u : Derivation d ss) (t : Derivation d pre)
      (gone : Derivation d [x]) (t' : Derivation d post) (u' : Derivation d ss')
      (h : x ∈ omissible d p) (single : gone.kinds = [k]) :
      Omits (u.append (.phrase p rule (t.append (gone.append t')) u')) x (u.kinds ++ t.kinds) k
        (t'.kinds ++ u'.kinds)
  | inside {p : Phrase} {parts ss ss' : List Symbol} {x : Symbol} {before after : List Kind}
      {k : Kind} {rule : parts ∈ productions d p} {t : Derivation d parts} (u : Derivation d ss)
      (h : t.Omits x before k after) (u' : Derivation d ss') :
      Omits (u.append (.phrase p rule t u')) x (u.kinds ++ before) k (after ++ u'.kinds)

theorem Omits.kinds_eq (h : t.Omits x before k after) : t.kinds = before ++ k :: after := by
  induction h with
  | here u t gone t' u' h single => simp [kinds, single]
  | inside u h u' ih => simp [kinds, ih]

/-- What may be missing leaves no trace. -/
theorem traces_of_omissible (gone : Derivation d [x]) (h : x ∈ omissible d p) :
    gone.traces = [] := by
  rcases cases_of_omissible d p x h with rfl | ⟨k, -, rfl⟩
  · cases gone with
    | phrase _ rule inside rest =>
      cases rest
      simp only [productions, List.mem_cons, List.not_mem_nil, or_false] at rule
      rcases rule with rfl | rfl | rfl
      all_goals
        cases inside with
        | token _ rest =>
          cases rest
          rfl
  · cases gone with
    | token _ rest =>
      cases rest
      rfl

/-- Among symbols that hold a program only if it is all there is, a phrase ends as `ends` says. -/
theorem front_mem_ends (followed : Followed d behind (ss ++ .phrase p :: ss'))
    (hm : front more ∈ behind)
    (alone : .phrase .program ∈ ss ++ .phrase p :: ss' →
      ss ++ .phrase p :: ss' = [.phrase .program] ∧ more = [])
    (u' : Derivation d ss') : front (u'.kinds ++ more) ∈ ends d p := by
  unfold ends
  split
  · next hp =>
    subst hp
    obtain ⟨only, rfl⟩ := alone (List.mem_append_right _ List.mem_cons_self)
    obtain ⟨-, only⟩ | ⟨-, only⟩ := List.append_eq_singleton_iff.1 only
    · cases only
      cases u'
      exact List.mem_singleton_self _
    · cases only
  · exact followed.of_append.1 _ (Derives.front_mem ⟨u', rfl⟩ hm)

end Derivation

/-! ## One more line -/

/-- The lines `ls'` are the lines `ls` and one more, the line `e`. -/
def Adds (e : Line) (ls ls' : List Line) : Prop :=
  ∃ l₁ l₂, ls = l₁ ++ l₂ ∧ ls' = l₁ ++ e :: l₂

theorem Adds.append {e : Line} {ls ls' : List Line} (h : Adds e ls ls') (l l' : List Line) :
    Adds e (l ++ ls ++ l') (l ++ ls' ++ l') := by
  obtain ⟨l₁, l₂, rfl, rfl⟩ := h
  exact ⟨l ++ l₁, l₂ ++ l', by simp, by simp⟩

section

variable {s : Settings} {p : Phrase} {parts ss ss' : List Symbol} {n i : Nat}
  {rule : parts ∈ productions s.dialect p} {u : Derivation s.dialect ss}
  {t : Derivation s.dialect parts} {u' : Derivation s.dialect ss'} {ks more behind : List Kind}
  {ls : List Line} {e : Line} {x : Symbol}

/-- A check that says one thing more about a phrase goes along what is around the phrase. -/
theorem Walk.exists_around (before : u.Taken ks) (behind : u'.Taken more)
    (takes : Takes s.dialect p parts ks)
    (nesting : (u.append (.phrase p rule t u')).nesting ≤ s.maxNesting - n)
    (adds : Adds e (t.traces.map .trace) ls)
    (walk : Walk s i (annotate p (front ks) (parts.map Symbol.step)) ⟨ks, n + p.levels⟩
      ((p.tracesBefore t.kinds).map .trace ++ ls ++ p.tracesAfter.map .trace)
      ⟨u'.kinds ++ more, n + p.levels⟩) :
    ∃ j ls', Adds e ((u.append (.phrase p rule t u')).traces.map .trace) ls' ∧
      Walk s j ((ss ++ .phrase p :: ss').map Symbol.step) ⟨u.kinds ++ ks, n⟩ ls' ⟨more, n⟩ := by
  rw [Derivation.nesting_append, Derivation.nesting, Nat.max_le, Nat.max_le] at nesting
  obtain ⟨nestingBefore, nestingInside, nestingBehind⟩ := nesting
  have open? : p.opensLevel → n < s.maxNesting := by
    have room := Nat.le_trans (Nat.le_add_left _ _) nestingInside
    exact fun hp => Nat.lt_of_sub_pos (Phrase.levels_le.1 room hp)
  obtain ⟨i₁, walkBefore⟩ := before.exists_walk nestingBefore
  obtain ⟨i₂, walkBehind⟩ := behind.exists_walk nestingBehind
  rw [← takes] at walk
  obtain ⟨i₃, walkOn⟩ := Walk.enter (σ := ⟨ks, n⟩) open? walk walkBehind
  have whole := walkBefore.append walkOn
  refine ⟨i₁ + i₃, _, ?_, by simpa using whole⟩
  have around := adds.append (u.traces ++ p.tracesBefore t.kinds |>.map .trace)
    (p.tracesAfter ++ u'.traces |>.map .trace)
  simpa [Derivation.traces] using around

/-- Where what is ahead looks as if nothing were wrong, the check takes the alternatives of the
derivation. -/
theorem Derivation.Taken.exists_walk_around
    (taken : (u.append (.phrase p rule t u')).Taken more)
    (nesting : (u.append (.phrase p rule t u')).nesting ≤ s.maxNesting - n)
    (nonempty : t.kinds ≠ [])
    (alike : Alike s.dialect (t.kinds ++ (u'.kinds ++ more)) ks)
    (adds : Adds e (t.traces.map .trace) ls)
    (walk : Walk s i (parts.map Symbol.step) ⟨ks, n + p.levels⟩ ls
      ⟨u'.kinds ++ more, n + p.levels⟩) :
    ∃ j ls', Adds e ((u.append (.phrase p rule t u')).traces.map .trace) ls' ∧
      Walk s j ((ss ++ .phrase p :: ss').map Symbol.step) ⟨u.kinds ++ ks, n⟩ ls' ⟨more, n⟩ := by
  obtain ⟨before, takes, -, behind⟩ := Derivation.taken_append.1 taken
  rw [Derivation.kinds, List.append_assoc] at before
  have starting : t.kinds ≠ [] → front ks = front t.kinds := by
    intro _
    rw [← alike.first, front_append _ nonempty]
  obtain ⟨j, annotated⟩ := walk.annotated rule t starting
  exact Walk.exists_around (before.of_alike alike) behind (takes.of_alike alike) nesting adds
    annotated

/-- A check finds a part missing, and reports that. -/
theorem Walk.missing {x : Symbol} (policy : s.recovery = .insert) (h : x ∈ omissible s.dialect p)
    (other : front ks ∉ starts s.dialect [.endOfText] [x]) :
    ∃ i, Walk s i [x.step] ⟨ks, n⟩ [.diagnostic (x.missing (front ks))] ⟨ks, n⟩ := by
  have stay (σ : Spot) : σ.recover s.recovery = σ := by
    rw [policy]
    rfl
  rcases cases_of_omissible s.dialect p x h with rfl | ⟨k, -, rfl⟩
  · have expanded : expand s.dialect .type (front ks) (front ks.tail) =
        [.report (.expectedType (front ks)), .recover] := if_neg other
    have recovered : Walk s 1 [.recover] ⟨ks, n⟩ [] ⟨ks, n⟩ := by
      have moved : (⟨ks, n⟩ : Spot).move s .recover = { spot := ⟨ks, n⟩ } :=
        congrArg (Spot.Move.mk [] · []) (stay ⟨ks, n⟩)
      exact .of_move moved (.nil _)
    have reported : Walk s 2 [.report (.expectedType (front ks)), .recover] ⟨ks, n⟩
        [.diagnostic (.expectedType (front ks))] ⟨ks, n⟩ := .cons (.report _) recovered
    rw [← expanded] at reported
    refine ⟨3, .cons (.phrase .type) ?_⟩
    simpa [Spot.move, Symbol.missing] using reported
  · have ne : front ks ≠ k := fun hk => other (List.mem_singleton.2 hk)
    have moved := Spot.move_expect_of_ne (s := s) (σ := ⟨ks, n⟩) ne
    rw [stay] at moved
    exact ⟨1, .of_move moved (.nil _)⟩

/-- The check of a phrase of which a part is missing says so, and nothing else. What is ahead looks
to it as if the part were there. -/
theorem Walk.of_missing {pre post : List Symbol} {k : Kind} {t : Derivation s.dialect pre}
    {gone : Derivation s.dialect [x]} {t' : Derivation s.dialect post}
    (policy : s.recovery = .insert) (rule : pre ++ x :: post ∈ productions s.dialect p)
    (h : x ∈ omissible s.dialect p) (single : gone.kinds = [k])
    (hb : front behind ∈ ends s.dialect p) (taken : (t.append (gone.append t')).Taken behind)
    (nesting : (t.append (gone.append t')).nesting ≤ s.maxNesting - n) :
    Alike s.dialect ((t.append (gone.append t')).kinds ++ behind)
        (t.kinds ++ (t'.kinds ++ behind)) ∧
      ∃ i ls, Adds (.diagnostic (x.missing (front (t'.kinds ++ behind))))
          ((t.append (gone.append t')).traces.map .trace) ls ∧
        Walk s i ((pre ++ x :: post).map Symbol.step) ⟨t.kinds ++ (t'.kinds ++ behind), n⟩ ls
          ⟨behind, n⟩ := by
  have insertable := Insertable.of_mem rule h
  obtain ⟨other, stops, noSign⟩ := insertable.behind _ (Derives.front_mem ⟨t', rfl⟩ hb)
  obtain ⟨takenBefore, takenRest⟩ := Derivation.taken_append.1 taken
  obtain ⟨-, takenBehind⟩ := Derivation.taken_append.1 takenRest
  rw [Derivation.nesting_append, Derivation.nesting_append] at nesting
  have next : s.dialect.hasProcedures → (front ((gone.append t').kinds ++ behind) = .assign ↔
      front (t'.kinds ++ behind) = .assign) := by
    intro calls
    have sign : front (gone.kinds ++ []) ∈ starts s.dialect [.endOfText] [x] :=
      Derives.front_mem ⟨gone, rfl⟩ (List.mem_singleton_self _)
    rw [single] at sign
    rw [Derivation.kinds_append, single]
    refine iff_of_false ?_ (noSign calls)
    intro hk
    have hk : k = .assign := hk
    subst hk
    exact insertable.noSign calls sign
  have nonempty : t.kinds ≠ [] := fun empty => insertable.notFirst (t.all_nullable empty)
  obtain ⟨i₁, walkBefore⟩ :=
    (takenBefore.exchange next (.inr stops)).exists_walk (s := s) (n := n) (by omega)
  obtain ⟨i₂, walkMissing⟩ := Walk.missing (n := n) policy h other
  obtain ⟨i₃, walkBehind⟩ := takenBehind.exists_walk (s := s) (n := n) (by omega)
  have whole := walkBefore.append (walkMissing.append walkBehind)
  refine ⟨by simpa using Alike.append_of_ne next nonempty, i₁ + (i₂ + i₃), _, ?_,
    by simpa using whole⟩
  exact ⟨t.traces.map .trace, t'.traces.map .trace, by simp [Derivation.traces_of_omissible gone h],
    by simp⟩

/-- **A check inserts what is missing.** -/
theorem Derivation.Omits.exists_walk {t : Derivation s.dialect ss} {before after : List Kind}
    {k : Kind} (h : t.Omits x before k after) (policy : s.recovery = .insert)
    (followed : Followed s.dialect behind ss) (hm : front more ∈ behind)
    (alone : .phrase .program ∈ ss → ss = [.phrase .program] ∧ more = [])
    (taken : t.Taken more) (nesting : t.nesting ≤ s.maxNesting - n) :
    Alike s.dialect (t.kinds ++ more) (before ++ (after ++ more)) ∧
      ∃ i ls, Adds (.diagnostic (x.missing (front (after ++ more)))) (t.traces.map .trace) ls ∧
        Walk s i (ss.map Symbol.step) ⟨before ++ (after ++ more), n⟩ ls ⟨more, n⟩ := by
  induction h generalizing more behind n with
  | @here p pre post ss ss' x k rule u t gone t' u' h single =>
    have hb := front_mem_ends followed hm alone u'
    obtain ⟨-, -, inner, -⟩ := taken_append.1 taken
    have deep := nesting
    rw [nesting_append, Derivation.nesting, Nat.max_le, Nat.max_le] at deep
    obtain ⟨alike, i, ls, adds, walk⟩ :=
      Walk.of_missing (n := n + p.levels) policy rule h single hb inner (by omega)
    obtain ⟨j, ls, adds, walk⟩ :=
      taken.exists_walk_around nesting (by simp [single]) alike adds walk
    refine ⟨by simpa [Derivation.kinds] using alike.append u.kinds, j, ls, ?_, by simpa using walk⟩
    rwa [List.append_assoc]
  | @inside p parts ss ss' x before after k rule t u h u' ih =>
    have hb : front (u'.kinds ++ more) ∈ follow s.dialect p :=
      followed.of_append.1 _ (Derives.front_mem ⟨u', rfl⟩ hm)
    have noProgram := program_not_mem_parts s.dialect p parts rule
    obtain ⟨-, -, inner, -⟩ := taken_append.1 taken
    have deep := nesting
    rw [nesting_append, Derivation.nesting, Nat.max_le, Nat.max_le] at deep
    obtain ⟨alike, i, ls, adds, walk⟩ :=
      ih (n := n + p.levels) (followed_parts s.dialect p parts rule) hb
        (fun hp => absurd hp noProgram) inner (by omega)
    obtain ⟨j, ls, adds, walk⟩ :=
      taken.exists_walk_around nesting (by simp [h.kinds_eq]) alike adds walk
    refine ⟨by simpa [Derivation.kinds] using alike.append u.kinds, j, ls, ?_, by simpa using walk⟩
    rwa [List.append_assoc]

end

/-! ## Whole programs -/

/-- **A missing token costs one diagnostic.** Take a token out of a program that a check inserts
where it is missing. Then the check says what it says about the whole program, and one thing more:
that this token is missing in front of the one behind it. -/
theorem check_of_omission {s : Settings} {t : Tree s.dialect .program} {x : Symbol}
    {before after : List Kind} {k : Kind} (policy : s.recovery = .insert)
    (nesting : t.nesting ≤ s.maxNesting) (nearest : t.ElsesNearest)
    (h : t.Omits x before k after) :
    (∀ text, kinds text s.dialect = before ++ k :: after →
      (check text s).lines = t.traces.map .trace) ∧
    ∀ text, kinds text s.dialect = before ++ after →
      Adds (.diagnostic (x.missing (front after))) (t.traces.map .trace) (check text s).lines := by
  constructor
  · intro text whole
    refine lines_check_of_tree ?_ nesting nearest
    rw [map_kind_tokenize, whole, ← h.kinds_eq]
    exact List.prefix_append _ _
  · intro text damaged
    have fits : t.Fits s.maxNesting t.kinds [] :=
      ⟨List.append_nil _, nesting, nearest, fun takes => absurd takes t.not_takesElse⟩
    have taken := fits.taken followed_program (Kind.mem_all _)
    obtain ⟨-, i, ls, adds, walk⟩ := h.exists_walk (n := 0) policy followed_program
      (Kind.mem_all _) (fun _ => ⟨rfl, rfl⟩) taken nesting
    rw [List.append_nil] at adds walk
    rw [← damaged] at walk
    rw [walk.lines_check]
    exact adds

section

open MiniPascal.Derivation

/-- The THEN of the first command is missing, in front of the second one. -/
theorem check_of_omission_then :
    Adds (.diagnostic (.expected .kwThen .kwIf)) (Tree.dangling.traces.map .trace)
      (check "program p; begin if 1 if 2 then f else g end." ⟨.extended, .insert, 3⟩).lines :=
  have omits : Tree.dangling.Omits (.token .kwThen)
      [.kwProgram, .identifier, .semicolon, .kwBegin, .kwIf, .integerLiteral] .kwThen
      [.kwIf, .integerLiteral, .kwThen, .identifier, .kwElse, .identifier, .kwEnd, .dot] :=
    .inside nil
      (.inside (token .kwProgram (token .identifier (token .semicolon nil)))
        (.inside (phrase .procedures List.mem_cons_self nil nil)
          (.inside (token .kwBegin nil)
            (.here nil (token .kwIf (number nil)) (token .kwThen nil) _ nil (by decide) rfl) _)
          nil)
        _)
      nil
  (check_of_omission (s := ⟨.extended, .insert, 3⟩) rfl (by decide) (by decide) omits).2 _
    (by decide +kernel)

end

end MiniPascal
