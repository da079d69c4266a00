import MiniPascal.Proofs.Walk

/-!
# The shape of a transcript

However broken a text is, what a check says about it has a shape. Compound commands are entered and
left as brackets are opened and closed, all other traces are left inside of them, and most traces
tell which line comes next.

* `Bracketed` — the lines are brackets, and no more of them are open than there are levels, and one.
* `Linked` — each line is followed by what it leads to.
* `Step.Placed`, `Step.Steady` — the invariants of agendas that carry them.

**Theorem (`Walk.bracketed`).** A phrase of a command needs a compound command around it and a level
for each further one. The parts of a phrase need no more than the phrase gives them, so every step
keeps the agenda placed.

**Theorem (`Walk.linked`).** A trace that leads to another line stands in front of the steps that
leave it. Only the trace of a command depends on the token in front, so a command is entered in one
go with its first line.

For whole programs this is `wellShaped_check`.
-/

namespace MiniPascal

open Grammar

/-! ## Brackets -/

/-- The number of open compound commands behind a trace, if there are `n` in front of it. -/
def Trace.opened (n : Nat) : Trace → Nat
  | compoundBegin => n + 1
  | compoundEnd => n - 1
  | _ => n

/-- The lines are left within `n` open compound commands, and behind the last line none is open.
Every trace but the one that enters a compound command needs an open one, and there are never more
than `limit` of them. -/
def Bracketed (limit : Nat) : Nat → List Line → Prop
  | n, [] => n = 0
  | n, .diagnostic _ :: ls => Bracketed limit n ls
  | n, .trace t :: ls =>
    (t ≠ .compoundBegin → 0 < n) ∧ t.opened n ≤ limit ∧ Bracketed limit (t.opened n) ls

/-- The trace may be left within `n` open compound commands and `m` open levels. -/
def Trace.Within (n m : Nat) : Trace → Prop
  | compoundBegin => n ≤ m
  | _ => 0 < n

/-- The phrase may be checked within `n` open compound commands and `m` open levels. -/
def Phrase.Within (n m : Nat) : Phrase → Prop
  | program | block | procedures | procedureDeclaration => n = 0
  | compound => n ≤ m
  | moreCommands => 0 < n ∧ n ≤ m + 1
  | command | conditional | elsePart | repetition => 0 < n ∧ n ≤ m
  | assignment | procedureCall | argumentsPart | expressionList | moreExpressions | expression
  | relationPart | simpleExpression | moreTerms | term | moreFactors | factor => 0 < n
  | _ => True

/-- The steps are taken within `n` open compound commands and `m` open levels, and leave no compound
command open. -/
def Step.Placed : Nat → Nat → List Step → Prop
  | n, _, [] => n = 0
  | n, m, .mark t :: rest => t.Within n m ∧ Placed (t.opened n) m rest
  | n, m, .phrase p :: rest => p.Within n m ∧ Placed n m rest
  | n, m, .level p :: rest => p.Within n (m + 1) ∧ Placed n m rest
  | n, m, .close :: rest => Placed n (m - 1) rest
  | n, m, _ :: rest => Placed n m rest

/-- The parts of a phrase are placed where the phrase is. -/
theorem Grammar.placed_expand (d : Dialect) {p : Phrase} {n m : Nat} {rest : List Step}
    (c next : Kind) (within : p.Within n m) (placed : Step.Placed n m rest) :
    Step.Placed n m (expand d p c next ++ rest) := by
  cases p <;> simp only [expand, commandSteps, factorSteps] <;> (repeat' split) <;>
    simp_all [Step.Placed, Phrase.Within, Trace.Within, Trace.opened] <;> omega

/-- There is room for one compound command more than there are levels. -/
theorem Trace.opened_le {t : Trace} {n m limit : Nat} (within : t.Within n m) (room : m ≤ limit)
    (low : n ≤ limit + 1) : t.opened n ≤ limit + 1 := by
  cases t with
  | compoundBegin => exact Nat.succ_le_succ (Nat.le_trans within room)
  | compoundEnd => exact Nat.le_trans (Nat.sub_le n 1) low
  | _ => exact low

theorem Trace.pos_of_within {t : Trace} {n m : Nat} (within : t.Within n m)
    (other : t ≠ .compoundBegin) : 0 < n := by
  cases t with
  | compoundBegin => exact absurd rfl other
  | _ => exact within

/-- **Compound commands are entered and left as brackets are.** -/
theorem Walk.bracketed {s : Settings} {i n : Nat} {a : List Step} {σ σ' : Spot} {ls : List Line}
    (walk : Walk s i a σ ls σ') (placed : Step.Placed n σ.depth a)
    (room : σ.depth ≤ s.maxNesting) (low : n ≤ s.maxNesting + 1) :
    Bracketed (s.maxNesting + 1) n ls := by
  induction walk generalizing n with
  | nil => exact placed
  | @cons step i rest σ _ ls _ ih =>
    cases step with
    | mark t =>
      obtain ⟨within, placed⟩ := placed
      have opened := Trace.opened_le within room low
      exact ⟨Trace.pos_of_within within, opened, ih placed room opened⟩
    | expect k =>
      by_cases hk : front σ.ahead = k
      · rw [Spot.move_expect hk] at ih ⊢
        exact ih placed room low
      · rw [Spot.move_expect_of_ne hk] at ih ⊢
        have same := σ.depth_recover s.recovery
        exact ih (same ▸ placed) (same ▸ room) low
    | phrase p => exact ih (placed_expand s.dialect _ _ placed.1 placed.2) room low
    | level p =>
      obtain ⟨within, placed⟩ := placed
      by_cases open? : σ.depth < s.maxNesting
      · rw [Spot.move_level p open?] at ih ⊢
        exact ih ⟨within, placed⟩ open? low
      · rw [Spot.move_level_of_not p open?] at ih ⊢
        exact ih placed room low
    | recover =>
      have same := σ.depth_recover s.recovery
      exact ih (same ▸ placed) (same ▸ room) low
    | close => exact ih placed (Nat.le_trans (Nat.sub_le _ _) room) low
    | _ => exact ih placed room low

/-- How often a compound command is entered. -/
def begins (ls : List Line) : Nat := ls.count (.trace .compoundBegin)

/-- How often a compound command is left. -/
def ends (ls : List Line) : Nat := ls.count (.trace .compoundEnd)

/-- Between any two lines some compound commands are open, those that have been entered and not yet
left. -/
theorem Bracketed.exists_open {limit n : Nat} {before after : List Line}
    (h : Bracketed limit n (before ++ after)) (low : n ≤ limit) :
    ∃ m ≤ limit, m + ends before = n + begins before ∧ Bracketed limit m after := by
  induction before generalizing n with
  | nil => exact ⟨n, low, rfl, h⟩
  | cons l before ih =>
    cases l with
    | diagnostic e =>
      obtain ⟨m, hm, count, rest⟩ := ih h low
      refine ⟨m, hm, ?_, rest⟩
      simpa [begins, ends] using count
    | trace t =>
      obtain ⟨pos, opened, h⟩ := h
      obtain ⟨m, hm, count, rest⟩ := ih h opened
      refine ⟨m, hm, ?_, rest⟩
      cases t with
      | compoundBegin =>
        simp only [begins, ends, Trace.opened] at count ⊢
        simp
        omega
      | compoundEnd =>
        have := pos nofun
        simp only [begins, ends, Trace.opened] at count ⊢
        simp
        omega
      | _ => simpa [begins, ends, Trace.opened] using count

/-! ## Neighbours -/

/-- The line right behind the trace of a command, if it is told by the kind of the first token: a
call leaves no line of its own. -/
def Kind.commandLine? (d : Dialect) : Kind → Option Line
  | identifier => if d.hasProcedures then none else some (.trace .assignment)
  | kwBegin => some (.trace .compoundBegin)
  | kwIf | kwWhile => some (.trace .expression)
  | k => some (.diagnostic (.unexpected k))

/-- The line is left where a command is entered, or where there is no level for it. -/
def Line.ofCommand : Line → Bool
  | trace (.command _) | diagnostic (.nestingTooDeep _) => true
  | _ => false

/-- The line may have `next` right behind it, or the end of the transcript. -/
def Line.LeadsTo (d : Dialect) (next : Option Line) : Line → Prop
  | trace .compoundBegin | trace .separator => next.any ofCommand
  | trace (.command k) => ∀ l ∈ k.commandLine? d, next = some l
  | _ => True

/-- Each line leads to the next one, and an assignment comes right behind the name in front of
it. -/
def Linked (d : Dialect) : List Line → Prop
  | [] => True
  | l :: ls =>
    l.LeadsTo d ls.head? ∧
      (ls.head? = some (.trace .assignment) → l = .trace (.command .identifier)) ∧ Linked d ls

/-- A trace that leads to a command has one behind it, and no trace waits that is left only in front
of a certain token. -/
def Step.Steady : List Step → Prop
  | [] => True
  | .mark .compoundBegin :: rest | .mark .separator :: rest =>
    rest.head? = some (.level .command) ∧ Steady rest
  | .mark (.command _) :: _ | .mark .assignment :: _ | .phrase .assignment :: _ => False
  | .level p :: rest => p.opensLevel ∧ Steady rest
  | _ :: rest => Steady rest

theorem Step.steady_phrase {p : Phrase} {rest : List Step} (h : p ≠ .assignment) :
    Steady (.phrase p :: rest) ↔ Steady rest := by
  cases p <;> first | exact Iff.rfl | exact absurd rfl h

theorem Grammar.steady_expand (d : Dialect) {p : Phrase} {rest : List Step} (c next : Kind)
    (command : p ≠ .command) (assignment : p ≠ .assignment) (steady : Step.Steady rest) :
    Step.Steady (expand d p c next ++ rest) := by
  cases p <;> simp only [expand, factorSteps] <;> (repeat' split) <;>
    simp_all [Step.Steady, Phrase.opensLevel]

/-- A command is an assignment, or there is nothing to be told about it in advance. -/
theorem Grammar.steady_commandSteps (d : Dialect) {rest : List Step} (c next : Kind)
    (steady : Step.Steady rest) :
    c = .identifier ∧ commandSteps d c next = [.phrase .assignment] ∨
      Step.Steady (commandSteps d c next ++ rest) := by
  unfold commandSteps
  (repeat' split) <;> simp_all [Step.Steady]

section

variable {s : Settings} {i : Nat} {a rest : List Step} {σ σ' : Spot} {ls : List Line}

/-! ### The first line of a phrase -/

theorem Spot.move_phrase {c : Kind} (p : Phrase) (here : front σ.ahead = c) :
    σ.move s (.phrase p) = { spot := σ, todo := expand s.dialect p c (front σ.ahead.tail) } := by
  subst here
  rfl

theorem Walk.of_command (walk : Walk s i (.phrase .command :: rest) σ ls σ') :
    ∃ j ls', j < i ∧ ls = .trace (.command (front σ.ahead)) :: ls' ∧
      Walk s j (commandSteps s.dialect (front σ.ahead) (front σ.ahead.tail) ++ rest) σ ls' σ' := by
  cases walk with
  | cons _ walk =>
    cases walk with
    | cons _ walk => exact ⟨_, _, by omega, rfl, walk⟩

theorem Walk.of_assignment (walk : Walk s i (.phrase .assignment :: rest) σ ls σ') :
    ∃ j ls', j < i ∧ ls = .trace .assignment :: ls' ∧
      Walk s j (.phrase .variableName :: .expect .assign :: .phrase .expression :: rest) σ ls'
        σ' := by
  cases walk with
  | cons _ walk =>
    cases walk with
    | cons _ walk => exact ⟨_, _, by omega, rfl, walk⟩

theorem Walk.head_expression (walk : Walk s i (.phrase .expression :: rest) σ ls σ') :
    ls.head? = some (.trace .expression) := by
  cases walk with
  | cons _ walk =>
    cases walk
    rfl

/-- Where a command is wanted, it is entered or there is no level for it. -/
theorem Walk.head_level (walk : Walk s i (.level .command :: rest) σ ls σ') :
    ls.head?.any Line.ofCommand := by
  by_cases room : σ.depth < s.maxNesting
  · obtain ⟨_, _, -, rfl, inside⟩ := walk.move (Spot.move_level .command room)
    obtain ⟨_, _, -, rfl, -⟩ := inside.of_command
    rfl
  · obtain ⟨_, _, -, rfl, -⟩ := walk.move (Spot.move_level_of_not .command room)
    rfl

/-- The first line of a command behind its trace. -/
theorem Walk.head_commandSteps {c : Kind}
    (walk : Walk s i (commandSteps s.dialect c (front σ.ahead.tail) ++ rest) σ ls σ')
    (here : front σ.ahead = c) : ∀ l ∈ c.commandLine? s.dialect, ls.head? = some l := by
  intro l hl
  cases c with
  | identifier =>
    by_cases calls : s.dialect.hasProcedures
    · simp [Kind.commandLine?, calls] at hl
    · simp only [Kind.commandLine?, calls] at hl
      simp only [commandSteps, calls] at walk
      cases hl
      obtain ⟨_, _, -, rfl, -⟩ := walk.of_assignment
      rfl
  | kwBegin =>
    cases hl
    obtain ⟨_, _, -, rfl, walk⟩ := walk.move (Spot.move_phrase .compound here)
    obtain ⟨_, _, -, rfl, walk⟩ := walk.move (Spot.move_expect here)
    cases walk
    rfl
  | kwIf =>
    cases hl
    obtain ⟨_, _, -, rfl, walk⟩ := walk.move (Spot.move_phrase .conditional here)
    obtain ⟨_, _, -, rfl, walk⟩ := walk.move (Spot.move_expect here)
    exact walk.head_expression
  | kwWhile =>
    cases hl
    obtain ⟨_, _, -, rfl, walk⟩ := walk.move (Spot.move_phrase .repetition here)
    obtain ⟨_, _, -, rfl, walk⟩ := walk.move (Spot.move_expect here)
    exact walk.head_expression
  | _ =>
    cases hl
    cases walk
    rfl

/-! ### All lines -/

theorem Linked.diagnostic {d : Dialect} (e : Diagnostic)
    (h : Linked d ls ∧ ls.head? ≠ some (.trace .assignment)) :
    Linked d (.diagnostic e :: ls) ∧
      (Line.diagnostic e :: ls).head? ≠ some (.trace .assignment) :=
  ⟨⟨trivial, fun head => absurd head h.2, h.1⟩, nofun⟩

theorem Linked.trace {d : Dialect} {t : Trace} (other : t ≠ .assignment)
    (leads : (Line.trace t).LeadsTo d ls.head?)
    (h : Linked d ls ∧ ls.head? ≠ some (.trace .assignment)) :
    Linked d (.trace t :: ls) ∧ (Line.trace t :: ls).head? ≠ some (.trace .assignment) :=
  ⟨⟨leads, fun head => absurd head h.2, h.1⟩, by simpa using other⟩

/-- An assignment is told right behind its command. -/
theorem Linked.assignment {d : Dialect}
    (leads : (Line.trace (.command .identifier)).LeadsTo d (some (.trace .assignment)))
    (h : Linked d ls ∧ ls.head? ≠ some (.trace .assignment)) :
    Linked d (.trace (.command .identifier) :: .trace .assignment :: ls) :=
  ⟨leads, fun _ => rfl, trivial, fun head => absurd head h.2, h.1⟩

/-- **Each line leads to the next one.** -/
theorem Walk.linked (walk : Walk s i a σ ls σ') (steady : Step.Steady a) :
    Linked s.dialect ls ∧ ls.head? ≠ some (.trace .assignment) := by
  induction i using Nat.strongRecOn generalizing a σ ls with
  | _ i ih =>
    cases walk with
    | nil => exact ⟨trivial, nofun⟩
    | @cons step j rest _ _ ls later =>
      have shorter : j < j + 1 := Nat.lt_succ_self j
      cases step with
      | expect k =>
        by_cases hk : front σ.ahead = k
        · rw [Spot.move_expect hk] at later ⊢
          exact ih j shorter later steady
        · rw [Spot.move_expect_of_ne hk] at later ⊢
          exact Linked.diagnostic _ (ih j shorter later steady)
      | mark t =>
        cases t with
        | compoundBegin | separator =>
          obtain ⟨next, steady⟩ := steady
          obtain ⟨rest, rfl⟩ := List.head?_eq_some_iff.1 next
          exact Linked.trace nofun later.head_level (ih j shorter later steady)
        | compoundEnd | expression => exact Linked.trace nofun trivial (ih j shorter later steady)
        | command | assignment => exact absurd steady id
      | report e => exact Linked.diagnostic e (ih j shorter later steady)
      | phrase p =>
        by_cases assignment : p = .assignment
        · subst assignment
          exact absurd steady id
        rw [Step.steady_phrase assignment] at steady
        by_cases command : p = .command
        · subst command
          obtain ⟨j', ls', less, same, inside⟩ := Walk.of_command (.cons _ later)
          rw [same]
          have leads := inside.head_commandSteps rfl
          rcases steady_commandSteps s.dialect (front σ.ahead) (front σ.ahead.tail) steady with
            ⟨name, steps⟩ | steady
          · rw [steps] at inside
            obtain ⟨j'', ls'', less', rfl, behind⟩ := inside.of_assignment
            rw [name] at leads ⊢
            exact ⟨Linked.assignment leads (ih j'' (by omega) behind steady), nofun⟩
          · exact Linked.trace nofun leads (ih j' less inside steady)
        · exact ih j shorter later (steady_expand s.dialect _ _ command assignment steady)
      | level p =>
        obtain ⟨opens, steady⟩ := steady
        have other : p ≠ .assignment := by
          rintro rfl
          cases opens
        by_cases room : σ.depth < s.maxNesting
        · rw [Spot.move_level p room] at later ⊢
          exact ih j shorter later ((Step.steady_phrase other).2 steady)
        · rw [Spot.move_level_of_not p room] at later ⊢
          exact Linked.diagnostic _ (ih j shorter later steady)
      | _ => exact ih j shorter later steady

end

theorem Linked.of_append {d : Dialect} {before after : List Line}
    (h : Linked d (before ++ after)) : Linked d after := by
  induction before with
  | nil => exact h
  | cons l before ih => exact ih h.2.2

/-- In front of an assignment there is its command, unless there is nothing. -/
theorem Linked.getLast?_eq {d : Dialect} {before after : List Line}
    (h : Linked d (before ++ .trace .assignment :: after)) (nonempty : before ≠ []) :
    before.getLast? = some (.trace (.command .identifier)) := by
  obtain ⟨before, l, rfl⟩ := List.eq_nil_or_concat before |>.resolve_left nonempty
  rw [List.concat_eq_append, List.append_assoc] at h
  rw [List.concat_eq_append, List.getLast?_concat, h.of_append.2.1 rfl]

/-! ## Whole programs -/

/-- The shape of the lines of a check. -/
structure WellShaped (s : Settings) (ls : List Line) : Prop where
  /-- Each compound command that is entered is left. -/
  balanced : begins ls = ends ls
  /-- None is left before it is entered, and no more are open at once than there are levels, and
  one. -/
  nested : ∀ before after, ls = before ++ after →
    ends before ≤ begins before ∧ begins before ≤ ends before + (s.maxNesting + 1)
  /-- Any other trace is left inside of a compound command. -/
  inside : ∀ before t after, ls = before ++ .trace t :: after → t ≠ .compoundBegin →
    ends before < begins before
  /-- Each line leads to the next one. -/
  linked : ∀ before l after, ls = before ++ l :: after → l.LeadsTo s.dialect after.head?
  /-- An assignment comes right behind the command that it is. -/
  assigned : ∀ before after, ls = before ++ .trace .assignment :: after →
    before.getLast? = some (.trace (.command .identifier))

/-- **Every transcript is well shaped**, whatever the text. -/
theorem wellShaped_check (text : String) (s : Settings) :
    WellShaped s (check text s).lines := by
  obtain ⟨i, σ, walk⟩ := exists_walk_check text s
  have bracketed := walk.bracketed ⟨rfl, rfl⟩ (Nat.zero_le _) (Nat.zero_le _)
  obtain ⟨linked, head⟩ := walk.linked trivial
  refine ⟨?_, ?_, ?_, ?_, ?_⟩
  · rw [← List.append_nil (check text s).lines] at bracketed
    obtain ⟨m, -, count, none⟩ := bracketed.exists_open (Nat.zero_le _)
    have none : m = 0 := none
    omega
  · intro before after split
    rw [split] at bracketed
    obtain ⟨m, low, count, -⟩ := bracketed.exists_open (Nat.zero_le _)
    omega
  · intro before t after split other
    rw [split] at bracketed
    obtain ⟨m, -, count, pos, -⟩ := bracketed.exists_open (Nat.zero_le _)
    have := pos other
    omega
  · intro before l after split
    rw [split] at linked
    exact linked.of_append.1
  · intro before after split
    rw [split] at linked head
    refine linked.getLast?_eq ?_
    rintro rfl
    exact head rfl

end MiniPascal
