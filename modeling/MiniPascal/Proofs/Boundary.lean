import MiniPascal.Proofs.Continuation
import MiniPascal.Proofs.FirstFault

/-!
# Where a phrase ends

A checker can be asked for a single phrase, wherever it stands. If it has nothing to report then it
has consumed a phrase of this kind, but which one? A text may start with several: `a < b` starts
with the expressions `a` and `a < b`. The check is greedy: it stops only in front of a token with
which no phrase could go on.

* `Tree.opened` — the levels that the check of a phrase opens. A command and a factor open one of
  their own; the level of a procedure declaration is opened by the block around it.
* `Derivation.Stops` — no phrase goes on with what comes behind the derivation.

**Theorem (`Derivation.taken_iff_stops`).** A check takes the alternatives of a tree exactly if each
ELSE belongs to the nearest IF and the tree stops where it ends.

For the check of one phrase, from any place in any text, this is `clean_parse`.
-/

namespace MiniPascal

open Grammar

/-! ## What can come next -/

/-- The symbols can start with a token of kind `k`, as `fuel` rules suffice to show. -/
def Grammar.opensWith (d : Dialect) (k : Kind) : Nat → List Symbol → Bool
  | _, [] => false
  | _, .token k' :: _ => k' = k
  | 0, .phrase _ :: _ => false
  | fuel + 1, .phrase p :: ss =>
    (productions d p).any fun parts => opensWith d k fuel (parts ++ ss)

section

variable {d : Dialect} {p : Phrase} {ss ss' : List Symbol} {ks ks' : List Kind} {k : Kind}

theorem viable_of_opensWith {fuel : Nat} (h : opensWith d k fuel ss) : Viable d ss [k] := by
  fun_induction opensWith d k fuel ss with
  | case1 | case3 => cases h
  | case2 _ k' ss =>
    obtain rfl := of_decide_eq_true h
    exact (viable_nil d ss).cons k'
  | case4 fuel p ss ih =>
    obtain ⟨parts, rule, h⟩ := List.any_eq_true.1 h
    exact .of_parts rule (ih parts h)

theorem Viable.append (h : Viable d ss ks) (ss' : List Symbol) : Viable d (ss ++ ss') ks := by
  obtain ⟨more, h⟩ := h
  obtain ⟨behind, hb⟩ := exists_derives d ss'
  exact ⟨more ++ behind, derives_append.2 ⟨_, _, (List.append_assoc ..).symm, h, hb⟩⟩

/-- What is derived can be put in front of the start of something that is derived. -/
theorem Viable.behind (h : Derives d ss ks) (later : Viable d ss' ks') :
    Viable d (ss ++ ss') (ks ++ ks') := by
  obtain ⟨more, hm⟩ := later
  exact ⟨more, derives_append.2 ⟨_, _, List.append_assoc .., h, hm⟩⟩

/-- A phrase can really start with what it can start with by the table. -/
theorem viable_of_mem_first (h : k ∈ first d p) : Viable d (.phrase p :: ss) [k] := by
  have table : ∀ k ∈ first d p, opensWith d k 8 [.phrase p] := by
    cases d <;> cases p <;> decide
  exact (viable_of_opensWith (table k h)).append ss

/-- Behind every phrase there can come something that is neither an ELSE nor an assignment sign. -/
theorem exists_mem_follow (d : Dialect) (p : Phrase) :
    ∃ k ∈ follow d p, k ≠ .kwElse ∧ k ≠ .assign := by
  cases d <;> cases p <;> decide

/-- An assignment sign behind a name makes both a command. -/
theorem viable_assignment (d : Dialect) (ss : List Symbol) :
    Viable d (.phrase .command :: ss) [.identifier, .assign] := by
  have rule : [.phrase .assignment] ∈ productions d .command := by cases d <;> decide
  have parts : [.phrase .variableName, .token .assign, .phrase .expression] ∈
      productions d .assignment := List.mem_singleton_self _
  have name : [.token .identifier] ∈ productions d .variableName := List.mem_singleton_self _
  exact .of_parts rule (.of_parts parts (.of_parts name
    (((viable_nil d (.phrase .expression :: ss)).cons .assign).cons .identifier)))

end

/-! ## Derivations that stop -/

section

variable {d : Dialect} {p : Phrase} {parts ss : List Symbol} {more more' : List Kind}

/-- Nothing that is derived goes on with the token in front of which the derivation ends. -/
def Derivation.Stops (t : Derivation d ss) (more : List Kind) : Prop :=
  ¬Viable d ss (t.kinds ++ [front more])

namespace Derivation

theorem Stops.rest {rule : parts ∈ productions d p} {inside : Derivation d parts}
    {rest : Derivation d ss} (h : (phrase p rule inside rest).Stops more) : rest.Stops more := by
  intro viable
  refine h (.of_parts rule ?_)
  rw [kinds, List.append_assoc]
  exact .behind ⟨inside, rfl⟩ viable

theorem Stops.inside {rule : parts ∈ productions d p} {inside : Derivation d parts}
    {rest : Derivation d ss} (h : (phrase p rule inside rest).Stops more)
    (empty : rest.kinds = []) : inside.Stops more := by
  intro viable
  refine h (.of_parts rule ?_)
  rw [kinds, empty, List.append_nil]
  exact viable.append ss

/-- A check takes the alternative of a phrase that stops. -/
theorem Stops.takes {rule : parts ∈ productions d p} {inside : Derivation d parts}
    {rest : Derivation d ss} (h : (phrase p rule inside rest).Stops more)
    (empty : rest.kinds = []) : Takes d p parts (inside.kinds ++ more) := by
  by_cases hi : inside.kinds = []
  · -- The phrase is empty, and it cannot start with what comes next.
    have noFirst : front more ∉ first d p := by
      intro hm
      refine h ?_
      rw [kinds, hi, empty]
      exact viable_of_mem_first hm
    have nullable := inside.nullable_of_kinds rule hi
    obtain rfl := eq_nil_of_nullable d p parts rule (inside.all_nullable hi)
    rw [hi, Takes, List.map_nil, annotate_nil nullable]
    exact expand_eq_nil nullable noFirst _
  · -- In front of what can follow, the alternative is taken; what comes next is not looked at.
    obtain ⟨k, follows, noElse, noSign⟩ := exists_mem_follow d p
    have takes : Takes d p parts (inside.kinds ++ [k]) :=
      expand_eq rule ⟨inside, rfl⟩ follows fun _ _ => noElse
    rw [Takes] at takes ⊢
    cases hk : inside.kinds with
    | nil => exact absurd hk hi
    | cons x others =>
      rw [hk] at takes
      cases others with
      | cons => exact takes
      | nil =>
        refine Eq.trans ?_ takes
        show expand d p x (front more) = expand d p x k
        by_cases name : p = .command ∧ x = .identifier
        · obtain ⟨rfl, rfl⟩ := name
          have sign : front more ≠ .assign := by
            intro sign
            refine h ?_
            rw [kinds, hk, empty, sign]
            exact viable_assignment d ss
          rw [expand_next d _ _ (front more), expand_next d _ _ k, if_neg sign, if_neg noSign]
        · exact expand_eq_of_ne d _ _ name

/-- **Where it stops, the check takes it.** -/
theorem Stops.taken {t : Derivation d ss} (h : t.Stops more) (followed : Followed d [] ss)
    (nearest : t.ElsesNearest) : t.Taken more := by
  induction t generalizing more with
  | nil => trivial
  | token k rest ih =>
    have stops : rest.Stops more := fun viable => h (viable.cons k)
    exact ih stops followed nearest
  | @phrase p parts ss rule inside rest ihi ihr =>
    obtain ⟨nearestInside, nearestBehind, noElse⟩ := nearest
    have taken := ihr h.rest followed.2 nearestBehind
    by_cases empty : rest.kinds = []
    · have none : ∀ k ∈ ([] : List Kind), k ∈ follow d p := nofun
      have followed' := (followed_parts d p parts rule).mono none
      refine ⟨?_, ?_, taken⟩
      · rw [empty]
        exact h.takes empty
      · rw [empty]
        exact ihi (h.inside empty) followed' nearestInside
    · -- What is behind the phrase is derived, so it is what can follow.
      have hb : front (rest.kinds ++ more) ∈ follow d p := by
        rw [front_append _ empty]
        exact followed.1 _ (rest.front_mem_starts empty)
      rw [← front_append more empty] at noElse
      have fits : inside.Fits inside.nesting (inside.kinds ++ (rest.kinds ++ more))
          (rest.kinds ++ more) :=
        ⟨rfl, Nat.le_refl _, nearestInside, fun takes => noElse (.inl takes)⟩
      refine ⟨?_, fits.taken (followed_parts d p parts rule) hb, taken⟩
      refine expand_eq rule ⟨inside, rfl⟩ hb fun hp none => noElse (.inr ⟨hp, ?_⟩)
      subst none
      cases inside
      rfl

/-- The tokens behind what a check takes matter only up to the first of them. -/
theorem Taken.of_front {t : Derivation d ss} (taken : t.Taken more)
    (same : front more = front more') : t.Taken more' := by
  induction t generalizing more more' with
  | nil => trivial
  | token k rest ih => exact ih taken same
  | @phrase p parts ss rule inside rest ihi ihr =>
    obtain ⟨takes, inner, later⟩ := taken
    have behind : front (rest.kinds ++ more) = front (rest.kinds ++ more') := by
      cases rest.kinds with
      | nil => exact same
      | cons => rfl
    refine ⟨?_, ihi inner behind, ihr later same⟩
    by_cases hi : inside.kinds = []
    · -- A phrase that may be empty is no command.
      have nullable := inside.nullable_of_kinds rule hi
      have other (c : Kind) : ¬(p = .command ∧ c = .identifier) := by
        rintro ⟨rfl, -⟩
        cases nullable
      rw [hi, Takes, List.nil_append] at takes ⊢
      rw [← behind, ← takes]
      exact expand_eq_of_ne d _ _ (other _)
    · exact takes.of_alike (.append_of_ne (fun _ => by rw [behind]) hi)

/-- Each ELSE of a tree can be made to belong to the nearest IF. -/
theorem exists_tree_elsesNearest (t : Tree d p) :
    ∃ u : Tree d p, u.kinds = t.kinds ∧ u.ElsesNearest := by
  -- The rule is about what comes behind the tree as well; there is something that can.
  obtain ⟨k, follows, noElse, -⟩ := exists_mem_follow d p
  have followed : Followed d Kind.all [.phrase p, .token k] := by
    refine ⟨?_, trivial⟩
    intro k' hk
    obtain rfl := List.mem_singleton.1 hk
    exact follows
  obtain ⟨whole, same, nearest⟩ := (t.append (token k nil)).exists_elsesNearest followed
    (by simpa using noElse.symm)
  have split : ∃ (u : Tree d p) (v : Derivation d [.token k]), whole = u.append v :=
    whole.exists_append
  obtain ⟨u, behind, rfl⟩ := split
  refine ⟨u, ?_, (elsesNearest_of_append nearest).1⟩
  cases behind with
  | token _ rest =>
    cases rest
    simpa [kinds] using same

/-- **A check is greedy**: it goes on as long as the phrase can. -/
theorem Taken.stops {t : Tree d p} (taken : t.Taken more) : t.Stops more := by
  intro ⟨rest, longer, hl⟩
  obtain ⟨u, same, nearest⟩ := longer.exists_tree_elsesNearest
  rw [hl, List.append_assoc, List.singleton_append] at same
  have noEnd : .endOfText ∉ u.kinds := endOfText_not_mem_kinds u (by simp)
  have whole : u.Stops [] := by
    intro ⟨rest, v, hv⟩
    refine endOfText_not_mem_kinds v (by simp) ?_
    rw [hv]
    simp
  -- There is one walk from the start of the longer phrase, but the two trees lead to two ends.
  let s : Settings := ⟨d, .swallow, max t.nesting u.nesting⟩
  have taken' : t.Taken (front more :: rest) := taken.of_front rfl
  obtain ⟨_, short⟩ := taken'.exists_walk (s := s) (n := 0) (Nat.le_max_left ..)
  have followed : Followed d [] [.phrase p] := ⟨nofun, trivial⟩
  obtain ⟨_, long⟩ := (whole.taken followed nearest).exists_walk (s := s) (n := 0)
    (Nat.le_max_right ..)
  rw [List.append_nil, same] at long
  have ends := congrArg Spot.ahead (short.unique long).2
  cases ends

theorem Taken.front_ne_kwElse {t : Derivation d ss} (taken : t.Taken more)
    (dangling : t.TakesElse) : front more ≠ .kwElse := by
  induction t generalizing more with
  | nil => cases dangling
  | token k rest ih => exact ih taken dangling
  | phrase p rule inside rest ihi ihr =>
    obtain ⟨takes, inner, later⟩ := taken
    rcases dangling with dangling | ⟨empty, dangling | ⟨rfl, none⟩⟩
    · exact ihr later dangling
    · rw [empty] at inner
      exact ihi inner dangling
    · rw [empty, none] at takes
      exact Grammar.front_ne_kwElse rule takes none

theorem Taken.elsesNearest {t : Derivation d ss} (taken : t.Taken more) : t.ElsesNearest := by
  induction t generalizing more with
  | nil => trivial
  | token k rest ih => exact ih taken
  | phrase p rule inside rest ihi ihr =>
    obtain ⟨takes, inner, later⟩ := taken
    refine ⟨ihi inner, ihr later, ?_⟩
    intro dangling hf
    have hr : rest.kinds ≠ [] := by
      intro none
      rw [none] at hf
      cases hf
    have whole : Taken (phrase p rule inside nil) (rest.kinds ++ more) := ⟨takes, inner, trivial⟩
    refine whole.front_ne_kwElse (.inr ⟨rfl, dangling⟩) ?_
    rw [front_append _ hr, hf]

/-- **What a check takes.** It takes the alternatives of a tree exactly if each ELSE belongs to the
nearest IF and the tree stops where it ends. -/
theorem taken_iff_stops {t : Tree d p} : t.Taken more ↔ t.ElsesNearest ∧ t.Stops more := by
  constructor
  · intro taken
    exact ⟨taken.elsesNearest, taken.stops⟩
  · intro ⟨nearest, stops⟩
    have followed : Followed d [] [.phrase p] := ⟨nofun, trivial⟩
    exact stops.taken followed nearest

end Derivation

end

/-! ## The check of one phrase -/

/-- The levels that the check of a phrase opens for the phrase itself. -/
def Phrase.ownLevels : Phrase → Nat
  | command | factor => 1
  | _ => 0

/-- The number of levels that the check of a tree opens one inside another. -/
def Tree.opened {d : Dialect} {p : Phrase} : Tree d p → Nat
  | .phrase p _ inside _ => inside.nesting + p.ownLevels

theorem Phrase.step_cases (p : Phrase) :
    p.step = (Symbol.phrase p).step ∧ p.ownLevels = p.levels ∨
      p.step = .phrase p ∧ p.ownLevels = 0 := by
  cases p <;> decide

namespace Walk

variable {s : Settings} {i n : Nat} {p : Phrase} {σ σ' : Spot} {ks behind : List Kind}
  {ls : List Line}

/-- A walk over the steps for a phrase is one over the phrase, if there is a level for it. -/
theorem parse (room : p.ownLevels ≤ s.maxNesting - n)
    (inside : Walk s i (expand s.dialect p (front ks) (front ks.tail)) ⟨ks, n + p.ownLevels⟩ ls
      ⟨behind, n + p.ownLevels⟩) : ∃ j, Walk s j [p.step] ⟨ks, n⟩ ls ⟨behind, n⟩ := by
  rcases p.step_cases with ⟨step, own⟩ | ⟨step, own⟩
  · rw [own] at room inside
    rw [step]
    have level : p.opensLevel → n < s.maxNesting :=
      fun hp => Nat.lt_of_sub_pos (Phrase.levels_le.1 room hp)
    obtain ⟨j, walk⟩ := Walk.enter (σ := ⟨ks, n⟩) level inside (.nil _)
    rw [List.append_nil] at walk
    exact ⟨j, walk⟩
  · rw [own] at inside
    rw [step, ← List.append_nil ls]
    exact ⟨_, .cons (.phrase p) (inside.append (.nil _))⟩

/-- What a walk over a phrase is made of, if it leaves no report. -/
theorem of_parse (walk : Walk s i [p.step] σ ls σ') (clean : reports ls = []) :
    p.ownLevels ≤ s.maxNesting - σ.depth ∧ ∃ j behind,
      Walk s j (expand s.dialect p (front σ.ahead) (front σ.ahead.tail))
        ⟨σ.ahead, σ.depth + p.ownLevels⟩ ls ⟨behind, σ.depth + p.ownLevels⟩ ∧
      σ' = ⟨behind, σ.depth⟩ := by
  rcases p.step_cases with ⟨step, own⟩ | ⟨step, own⟩
  · rw [step] at walk
    rw [own]
    by_cases room : p.opensLevel → σ.depth < s.maxNesting
    · obtain ⟨j, _, ls, ls', behind, -, -, rfl, inside, rest⟩ := walk.of_enter room
      cases rest
      rw [List.append_nil]
      exact ⟨Phrase.levels_le.2 fun hp => Nat.sub_pos_of_lt (room hp), j, behind, inside, rfl⟩
    · obtain ⟨opens, full⟩ := Classical.not_imp.1 room
      rw [Symbol.step_of_opensLevel opens] at walk
      obtain ⟨_, ls, -, rfl, -⟩ := walk.move (Spot.move_level_of_not p full)
      cases clean
  · rw [step] at walk
    rw [own]
    obtain ⟨j, _, ls, ls', behind, -, -, rfl, inside, rest⟩ := walk.of_phrase
    cases rest
    rw [List.append_nil]
    exact ⟨Nat.zero_le _, j, behind, inside, rfl⟩

end Walk

/-- A tree that the check of one phrase goes along, in front of the tokens `ks` with `room` levels
left. It comes out in front of the tokens `more`. -/
structure Tree.Parsed {d : Dialect} {p : Phrase} (t : Tree d p) (room : Nat) (ks more : List Kind) :
    Prop where
  kinds : t.kinds ++ more = ks
  opened : t.opened ≤ room
  nearest : t.ElsesNearest
  stops : t.Stops more

section

variable {s : Settings} {p : Phrase} {σ σ' : Spot} {i : Nat} {ls : List Line} {more : List Kind}

/-- A check of one phrase that reports nothing goes along a tree. -/
theorem Walk.exists_parsed (walk : Walk s i [p.step] σ ls σ') (clean : reports ls = []) :
    ∃ t : Tree s.dialect p, t.Parsed (s.maxNesting - σ.depth) σ.ahead σ'.ahead := by
  obtain ⟨room, j, behind, inside, rfl⟩ := walk.of_parse clean
  rcases expand_cases s.dialect p (front σ.ahead) (front σ.ahead.tail) with
    ⟨parts, rule, steps⟩ | ⟨e, fault, -⟩
  · rw [steps] at inside
    have passed := (inside.passage (regular_annotate rule _)).exists_taken clean
    rw [form_annotate, Step.form_map_step] at passed
    obtain ⟨t, fits, inner⟩ := passed
    have taken : Derivation.Taken (.phrase p rule t .nil) behind := by
      refine ⟨?_, inner, trivial⟩
      rw [Derivation.kinds, List.nil_append, fits.kinds]
      exact steps
    obtain ⟨nearest, stops⟩ := Derivation.taken_iff_stops.1 taken
    refine ⟨.phrase p rule t .nil, ?_, ?_, nearest, stops⟩
    · rw [Derivation.kinds, Derivation.kinds, List.append_nil]
      exact fits.kinds
    · have : t.nesting ≤ s.maxNesting - (σ.depth + p.ownLevels) := fits.nesting
      rw [Tree.opened]
      omega
  · obtain ⟨es, hes⟩ := inside.reports_of_fault fault
    rw [clean] at hes
    cases hes

/-- A check goes along a tree that ends where the check would stop, and reports nothing. -/
theorem Tree.Parsed.exists_walk {t : Tree s.dialect p}
    (h : t.Parsed (s.maxNesting - σ.depth) σ.ahead more) :
    ∃ i ls, reports ls = [] ∧ Walk s i [p.step] σ ls ⟨more, σ.depth⟩ := by
  obtain ⟨whole, opened, nearest, stops⟩ := h
  have taken := Derivation.taken_iff_stops.2 ⟨nearest, stops⟩
  cases t with
  | phrase _ rule inside rest =>
    cases rest
    obtain ⟨takes, inner, -⟩ := taken
    have deep : inside.nesting + p.ownLevels ≤ s.maxNesting - σ.depth := opened
    obtain ⟨i, walk⟩ := inner.exists_walk (n := σ.depth + p.ownLevels) (by omega)
    obtain ⟨i, walk⟩ := walk.annotated rule inside (front_append _)
    rw [Derivation.kinds, Derivation.kinds, List.append_nil] at whole
    rw [Derivation.kinds, List.nil_append, whole] at takes walk
    rw [← takes] at walk
    obtain ⟨j, walk⟩ := walk.parse (by omega)
    exact ⟨j, _, by simp, walk⟩

end

/-- **The check of one phrase.** Wherever a checker stands: if the check of a phrase adds no
diagnostic, then what it consumes is derived by a tree of the phrase, one for which there are levels
enough, in which each ELSE belongs to the nearest IF, and from which no tree of the phrase goes on.
And if there is such a tree then the check adds no diagnostic, and consumes what the tree derives.
A checker is coherent in front of a text (`coherent_ofText`), and remains so whatever is asked of it
(`Moment.within`). -/
theorem clean_parse {c : Checker} (h : c.Coherent) (p : Phrase) :
    ((c.parse p).transcript.diagnostics = c.transcript.diagnostics →
      ∃ t : Tree c.dialect p, t.Parsed (c.maxNesting - c.depth) c.ahead (c.parse p).ahead) ∧
    ∀ (t : Tree c.dialect p) (more : List Kind), t.Parsed (c.maxNesting - c.depth) c.ahead more →
      (c.parse p).transcript.diagnostics = c.transcript.diagnostics ∧ (c.parse p).ahead = more := by
  obtain ⟨i, ls, σ, walk, arrives⟩ := Checker.exists_walk h [p.step]
  have told : (c.parse p).transcript.diagnostics = c.transcript.diagnostics ++ reports ls := by
    have := congrArg reports arrives.lines
    rwa [reports_append] at this
  have ends : (c.parse p).ahead = σ.ahead := congrArg Spot.ahead arrives.spot
  rw [told, ends, List.append_right_eq_self]
  constructor
  · intro clean
    exact walk.exists_parsed clean
  · intro t more parsed
    obtain ⟨j, ls', clean, walk'⟩ := parsed.exists_walk (s := c.settings) (σ := c.spot)
    obtain ⟨rfl, rfl⟩ := walk.unique walk'
    exact ⟨clean, rfl⟩

/-- Relations do not chain: of `a < b < c` the check of an expression consumes `a < b`. -/
theorem clean_parse_relations :
    ∃ t : Tree .extended .expression,
      t.Parsed 3 [.identifier, .less, .identifier, .less, .identifier] [.less, .identifier] := by
  let c := Checker.ofText "a < b < c" ⟨.extended, .swallow, 3⟩
  have clean : (c.parse .expression).transcript.diagnostics = c.transcript.diagnostics := by
    decide +kernel
  have ahead : c.ahead = [.identifier, .less, .identifier, .less, .identifier] := by
    decide +kernel
  have behind : (c.parse .expression).ahead = [.less, .identifier] := by decide +kernel
  have parsed := (clean_parse (Checker.coherent_ofText _ _) .expression).1 clean
  rw [ahead, behind] at parsed
  exact parsed

end MiniPascal
