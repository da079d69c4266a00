import MiniPascal.Proofs.Lookahead

/-!
# Walks

What a check does depends on little: on the kinds of the tokens from the current one on, and on the
number of open levels. These two are a `Spot`. A `Walk` takes the steps of an agenda from spot to
spot; it knows of no text, no scanner and no journal.

* `Spot.move` — what one step does.
* `Walk` — all the steps of an agenda, with the number of steps and the lines that they leave.

**Theorem (`Checker.exists_walk`).** Every run of a checker is a walk from its spot: the lines that
the run adds are those of the walk, and the checker ends where the walk ends.

**Theorem (`Walk.unique`).** There is one walk from a spot.

So each property of checks can be proved of walks. A walk can be cut wherever its agenda can
(`Walk.split`, `Walk.append`).
-/

namespace MiniPascal

/-! ## Spots and moves -/

/-- Where a check stands. -/
structure Spot where
  /-- The kinds of the tokens from the current one on. -/
  ahead : List Kind
  /-- The number of open levels. -/
  depth : Nat
  deriving DecidableEq

namespace Spot

/-- The spot behind the current token. -/
def advance (σ : Spot) : Spot := { σ with ahead := σ.ahead.tail }

/-- The spot behind a token that does not fit. -/
def recover (σ : Spot) (r : Recovery) : Spot := if r.consumesMismatch then σ.advance else σ

/-- What a step does: the lines that it leaves, the spot where it leads to, and the steps that
are to be taken in its stead. -/
structure Move where
  lines : List Line := []
  spot : Spot
  todo : List Step := []

def move (s : Settings) (σ : Spot) : Step → Move
  | .expect k =>
    if front σ.ahead = k then { spot := σ.advance }
    else { lines := [.diagnostic (.expected k (front σ.ahead))], spot := σ.recover s.recovery }
  | .mark t => { lines := [.trace t], spot := σ }
  | .report e => { lines := [.diagnostic e], spot := σ }
  | .skip => { spot := σ.advance }
  | .recover => { spot := σ.recover s.recovery }
  | .phrase p =>
    { spot := σ, todo := Grammar.expand s.dialect p (front σ.ahead) (front σ.ahead.tail) }
  | .level p =>
    if σ.depth < s.maxNesting then
      { spot := { σ with depth := σ.depth + 1 }, todo := [.phrase p, .close] }
    else { lines := [.diagnostic (.nestingTooDeep s.maxNesting)], spot := σ.advance }
  | .close => { spot := { σ with depth := σ.depth - 1 } }
  | .finish => { spot := σ }

variable {s : Settings} {σ : Spot} {k : Kind}

theorem move_expect (h : front σ.ahead = k) : σ.move s (.expect k) = { spot := σ.advance } :=
  if_pos h

theorem move_expect_cons (ks : List Kind) (n : Nat) :
    (⟨k :: ks, n⟩ : Spot).move s (.expect k) = { spot := ⟨ks, n⟩ } :=
  if_pos rfl

theorem move_expect_of_ne (h : front σ.ahead ≠ k) :
    σ.move s (.expect k) =
      { lines := [.diagnostic (.expected k (front σ.ahead))], spot := σ.recover s.recovery } :=
  if_neg h

theorem move_level (p : Phrase) (h : σ.depth < s.maxNesting) :
    σ.move s (.level p) =
      { spot := ⟨σ.ahead, σ.depth + 1⟩, todo := [.phrase p, .close] } :=
  if_pos h

theorem move_level_of_not (p : Phrase) (h : ¬σ.depth < s.maxNesting) :
    σ.move s (.level p) =
      { lines := [.diagnostic (.nestingTooDeep s.maxNesting)], spot := σ.advance } :=
  if_neg h

theorem length_pos (h : front σ.ahead ≠ .endOfText) : 0 < σ.ahead.length := by
  rw [eq_cons_of_front rfl h]
  exact Nat.succ_pos _

theorem length_advance_le (σ : Spot) : σ.advance.ahead.length ≤ σ.ahead.length := by
  simp [advance]

theorem length_advance_lt (h : front σ.ahead ≠ .endOfText) :
    σ.advance.ahead.length < σ.ahead.length := by
  have := length_pos h
  simp only [advance, List.length_tail]
  omega

theorem length_recover_le (σ : Spot) (r : Recovery) :
    (σ.recover r).ahead.length ≤ σ.ahead.length := by
  unfold recover
  split
  · exact length_advance_le σ
  · exact Nat.le_refl _

/-- What holds of nothing, of the steps for every phrase and of a phrase on a level of its own holds
of what a step leaves to be taken in its stead. -/
theorem todo_of {P : List Step → Prop} (s : Settings) (σ : Spot) (step : Step) (nothing : P [])
    (phrase : ∀ p c next, P (Grammar.expand s.dialect p c next))
    (level : ∀ p, P [.phrase p, .close]) : P (σ.move s step).todo := by
  cases step with
  | expect k =>
    by_cases hk : front σ.ahead = k
    · rw [move_expect hk]
      exact nothing
    · rw [move_expect_of_ne hk]
      exact nothing
  | phrase p => exact phrase p _ _
  | level p =>
    by_cases room : σ.depth < s.maxNesting
    · rw [move_level p room]
      exact level p
    · rw [move_level_of_not p room]
      exact nothing
  | _ => exact nothing

end Spot

/-! ## Walks -/

/-- The walk that takes `i` steps from the spot `σ`, through the agenda, to the spot `σ'`, and
leaves the lines `ls`. -/
inductive Walk (s : Settings) : Nat → List Step → Spot → List Line → Spot → Prop
  | nil (σ : Spot) : Walk s 0 [] σ [] σ
  | cons (step : Step) {i : Nat} {rest : List Step} {σ σ' : Spot} {ls : List Line}
      (h : Walk s i ((σ.move s step).todo ++ rest) (σ.move s step).spot ls σ') :
      Walk s (i + 1) (step :: rest) σ ((σ.move s step).lines ++ ls) σ'

namespace Walk

variable {s : Settings} {i j : Nat} {a b : List Step} {σ σ₁ σ₂ : Spot} {ls ls₁ ls₂ : List Line}

theorem eq_of_nil (h : Walk s i [] σ ls σ₁) : σ₁ = σ := by
  cases h
  rfl

theorem of_move {step : Step} {m : Spot.Move} (hm : σ.move s step = m)
    (h : Walk s i (m.todo ++ a) m.spot ls σ₁) :
    Walk s (i + 1) (step :: a) σ (m.lines ++ ls) σ₁ := by
  subst hm
  exact .cons step h

/-- What the first step of a walk leaves to be walked. -/
theorem move {step : Step} {m : Spot.Move} (hm : σ.move s step = m)
    (h : Walk s i (step :: a) σ ls σ₁) :
    ∃ j ls', i = j + 1 ∧ ls = m.lines ++ ls' ∧ Walk s j (m.todo ++ a) m.spot ls' σ₁ := by
  subst hm
  cases h with
  | cons _ h => exact ⟨_, _, rfl, rfl, h⟩

theorem append (h₁ : Walk s i a σ ls₁ σ₁) (h₂ : Walk s j b σ₁ ls₂ σ₂) :
    Walk s (i + j) (a ++ b) σ (ls₁ ++ ls₂) σ₂ := by
  induction h₁ with
  | nil => simpa using h₂
  | @cons step i rest σ _ _ _ ih =>
    have later := ih h₂
    rw [List.append_assoc] at later
    rw [Nat.add_right_comm, List.append_assoc (σ.move s step).lines]
    exact .cons step later

theorem split (h : Walk s i (a ++ b) σ ls σ₂) :
    ∃ i₁ i₂ ls₁ ls₂ σ₁, i = i₁ + i₂ ∧ ls = ls₁ ++ ls₂ ∧
      Walk s i₁ a σ ls₁ σ₁ ∧ Walk s i₂ b σ₁ ls₂ σ₂ := by
  induction i generalizing a σ ls with
  | zero =>
    cases a with
    | nil => exact ⟨0, 0, [], ls, σ, rfl, rfl, .nil σ, h⟩
    | cons step rest => cases h
  | succ i ih =>
    cases a with
    | nil => exact ⟨0, i + 1, [], ls, σ, (Nat.zero_add _).symm, rfl, .nil σ, h⟩
    | cons step rest =>
      cases h with
      | cons _ h =>
        obtain ⟨i₁, i₂, ls₁, ls₂, σ₁, rfl, rfl, h₁, h₂⟩ := ih (List.append_assoc .. ▸ h)
        exact ⟨i₁ + 1, i₂, _, ls₂, σ₁, by omega, (List.append_assoc ..).symm, .cons step h₁, h₂⟩

/-- **A walk is determined by its agenda and the spot where it starts.** -/
theorem unique (h₁ : Walk s i a σ ls₁ σ₁) (h₂ : Walk s j a σ ls₂ σ₂) : ls₁ = ls₂ ∧ σ₁ = σ₂ := by
  induction h₁ generalizing j ls₂ with
  | nil =>
    cases h₂
    exact ⟨rfl, rfl⟩
  | cons _ _ ih =>
    cases h₂ with
    | cons _ h₂ =>
      obtain ⟨rfl, rfl⟩ := ih h₂
      exact ⟨rfl, rfl⟩

end Walk

/-! ### Levels -/

/-- No phrase closes a level that it has not opened. -/
theorem Grammar.close_not_mem_expand (d : Dialect) (p : Phrase) (c next : Kind) :
    .close ∉ expand d p c next := by
  cases p <;> simp only [expand, commandSteps, factorSteps] <;> (repeat' split) <;> simp

@[simp] theorem Spot.depth_advance (σ : Spot) : σ.advance.depth = σ.depth := rfl

@[simp] theorem Spot.depth_recover (σ : Spot) (r : Recovery) : (σ.recover r).depth = σ.depth := by
  unfold recover
  split <;> rfl

/-- Whatever a step opens, the steps that it leaves will close. -/
theorem Spot.depth_move (s : Settings) (σ : Spot) (step : Step) :
    (σ.move s step).spot.depth - (σ.move s step).todo.count .close =
      σ.depth - [step].count .close := by
  cases step with
  | expect k =>
    by_cases hk : front σ.ahead = k
    · rw [move_expect hk]
      rfl
    · rw [move_expect_of_ne hk, depth_recover]
      rfl
  | recover =>
    have left : σ.move s .recover = { spot := σ.recover s.recovery } := rfl
    rw [left, depth_recover]
    rfl
  | phrase p =>
    have none : (σ.move s (.phrase p)).todo.count .close = 0 :=
      List.count_eq_zero.2 (Grammar.close_not_mem_expand s.dialect p _ _)
    rw [none]
    rfl
  | level p =>
    by_cases room : σ.depth < s.maxNesting
    · rw [move_level p room]
      exact Nat.add_sub_cancel σ.depth 1
    · rw [move_level_of_not p room]
      rfl
  | _ => rfl

namespace Walk

variable {s : Settings} {i j : Nat} {p : Phrase} {b : List Step} {σ σ₁ : Spot} {behind : List Kind}
  {ls ls₁ ls₂ : List Line}

/-- **A walk ends on the level that its agenda leads to.** -/
theorem depth_eq (h : Walk s i b σ ls σ₁) : σ₁.depth = σ.depth - b.count .close := by
  induction h with
  | nil => rfl
  | @cons step i rest σ _ _ _ ih =>
    rw [ih, List.count_append, ← Nat.sub_sub, Spot.depth_move, Nat.sub_sub, ← List.count_append]
    rfl

theorem depth_expand {c next : Kind} (h : Walk s i (Grammar.expand s.dialect p c next) σ ls σ₁) :
    σ₁.depth = σ.depth := by
  have none := List.count_eq_zero.2 (Grammar.close_not_mem_expand s.dialect p c next)
  rw [h.depth_eq, none, Nat.sub_zero]

/-! ### Phrases -/

theorem mark {a : List Step} (t : Trace) (h : Walk s i a σ ls σ₁) :
    Walk s (i + 1) (.mark t :: a) σ (.trace t :: ls) σ₁ :=
  .cons (.mark t) h

/-- A walk enters a phrase, level or not, takes the steps for its parts, and goes on behind it. -/
theorem enter (room : p.opensLevel → σ.depth < s.maxNesting)
    (inside : Walk s i (Grammar.expand s.dialect p (front σ.ahead) (front σ.ahead.tail))
      ⟨σ.ahead, σ.depth + p.levels⟩ ls₁ ⟨behind, σ.depth + p.levels⟩)
    (rest : Walk s j b ⟨behind, σ.depth⟩ ls₂ σ₁) :
    ∃ k, Walk s k ((Symbol.phrase p).step :: b) σ (ls₁ ++ ls₂) σ₁ := by
  by_cases hp : p.opensLevel
  · rw [Phrase.levels_of_opensLevel hp] at inside
    rw [Symbol.step_of_opensLevel hp]
    have closed : Walk s (j + 1) (.close :: b) ⟨behind, σ.depth + 1⟩ ls₂ σ₁ := .cons .close rest
    have phrase : Walk s _ (.phrase p :: .close :: b) ⟨σ.ahead, σ.depth + 1⟩ (ls₁ ++ ls₂) σ₁ :=
      .cons (.phrase p) (inside.append closed)
    exact ⟨_, .of_move (Spot.move_level p (room hp)) phrase⟩
  · rw [Phrase.levels_of_not hp] at inside
    rw [Symbol.step_of_not hp]
    exact ⟨_, .cons (.phrase p) (inside.append rest)⟩

theorem of_phrase (h : Walk s i (.phrase p :: b) σ ls σ₁) :
    ∃ i₁ i₂ ls₁ ls₂ behind, i₁ < i ∧ i₂ < i ∧ ls = ls₁ ++ ls₂ ∧
      Walk s i₁ (Grammar.expand s.dialect p (front σ.ahead) (front σ.ahead.tail)) σ ls₁
        ⟨behind, σ.depth⟩ ∧
      Walk s i₂ b ⟨behind, σ.depth⟩ ls₂ σ₁ := by
  cases h with
  | cons _ h =>
    obtain ⟨i₁, i₂, ls₁, ls₂, ⟨behind, depth⟩, rfl, rfl, inside, rest⟩ := h.split
    obtain rfl : depth = σ.depth := depth_expand inside
    exact ⟨i₁, i₂, ls₁, ls₂, behind, by omega, by omega, rfl, inside, rest⟩

/-- What a walk that enters a phrase is made of. -/
theorem of_enter (room : p.opensLevel → σ.depth < s.maxNesting)
    (h : Walk s i ((Symbol.phrase p).step :: b) σ ls σ₁) :
    ∃ i₁ i₂ ls₁ ls₂ behind, i₁ < i ∧ i₂ < i ∧ ls = ls₁ ++ ls₂ ∧
      Walk s i₁ (Grammar.expand s.dialect p (front σ.ahead) (front σ.ahead.tail))
        ⟨σ.ahead, σ.depth + p.levels⟩ ls₁ ⟨behind, σ.depth + p.levels⟩ ∧
      Walk s i₂ b ⟨behind, σ.depth⟩ ls₂ σ₁ := by
  by_cases hp : p.opensLevel
  · rw [Symbol.step_of_opensLevel hp] at h
    rw [Phrase.levels_of_opensLevel hp]
    obtain ⟨i, ls, rfl, rfl, h⟩ := h.move (Spot.move_level p (room hp))
    obtain ⟨i₁, i₂, ls₁, ls₂, behind, h₁, h₂, rfl, inside, rest⟩ := h.of_phrase
    have closed : (⟨behind, σ.depth + 1⟩ : Spot).move s .close = { spot := ⟨behind, σ.depth⟩ } :=
      rfl
    obtain ⟨i₂, ls₂, rfl, rfl, rest⟩ := rest.move closed
    exact ⟨i₁, i₂, ls₁, ls₂, behind, by omega, by omega, rfl, inside, rest⟩
  · rw [Symbol.step_of_not hp] at h
    rw [Phrase.levels_of_not hp]
    exact h.of_phrase

end Walk

/-! ### Reports -/

/-- The diagnostics among some lines. -/
def reports (ls : List Line) : List Diagnostic := ls.filterMap Line.diagnostic?

@[simp] theorem reports_nil : reports [] = [] := rfl

@[simp] theorem reports_trace (t : Trace) (ls : List Line) :
    reports (.trace t :: ls) = reports ls := rfl

@[simp] theorem reports_diagnostic (e : Diagnostic) (ls : List Line) :
    reports (.diagnostic e :: ls) = e :: reports ls := rfl

@[simp] theorem reports_append (ls ls' : List Line) :
    reports (ls ++ ls') = reports ls ++ reports ls' := List.filterMap_append

@[simp] theorem reports_map_trace (ts : List Trace) : reports (ts.map Line.trace) = [] := by
  induction ts with
  | nil => rfl
  | cons t ts ih => exact ih

theorem isClean_iff_reports (t : Transcript) : t.isClean ↔ reports t.lines = [] := by
  rw [Transcript.isClean_iff, reports, List.filterMap_eq_nil_iff]

/-- A walk over the steps for a fault starts with the report of it. -/
theorem Walk.reports_of_fault {s : Settings} {i : Nat} {a : List Step} {σ σ' : Spot}
    {ls : List Line} {e : Diagnostic} (fault : Step.fault? a = some e)
    (h : Walk s i a σ ls σ') : ∃ es, reports ls = e :: es := by
  induction a generalizing i ls with
  | nil => cases fault
  | cons step rest ih =>
    cases h with
    | cons _ h =>
      cases step with
      | mark t =>
        obtain ⟨es, hes⟩ := ih fault h
        exact ⟨es, hes⟩
      | report e' =>
        obtain rfl : e' = e := Option.some.inj fault
        exact ⟨_, rfl⟩
      | _ => cases fault

/-! ## Runs are walks -/

/-- The kinds of a text's tokens. -/
def kinds (text : String) (d : Dialect) : List Kind := (tokens d text.toList).map Token.kind

theorem map_kind_tokenize (text : String) (d : Dialect) :
    (tokenize text d).map Token.kind = kinds text d ++ [.endOfText] := by
  simp [tokenize, kinds, Token.endOfText]

namespace Checker

/-- The kinds of the tokens from the current one on. -/
def ahead (c : Checker) : List Kind :=
  if c.current.isEnd then []
  else c.current.kind :: (tokens c.dialect c.scanner.rest).map Token.kind

def spot (c : Checker) : Spot := ⟨c.ahead, c.depth⟩

/-- A checker that stands at the end of a text has nothing left to scan. -/
def Coherent (c : Checker) : Prop := c.current.isEnd → c.scanner.rest = []

theorem front_ahead (c : Checker) : front c.ahead = c.current.kind := by
  unfold ahead
  split
  · next h => exact (of_decide_eq_true h).symm
  · rfl

/-- The kinds that are ahead once the next token has been pulled. -/
theorem pull_kinds (d : Dialect) (cs : List Char) :
    (if (pull d cs).1.isEnd then []
      else (pull d cs).1.kind :: (tokens d (pull d cs).2).map Token.kind) =
        (tokens d cs).map Token.kind := by
  unfold pull
  cases h : scan? d cs with
  | none => simp [tokens_of_none h]
  | some found => simp [tokens_of_some h, isEnd_of_scan? h]

theorem pull_coherent (d : Dialect) (cs : List Char) (h : (pull d cs).1.isEnd) :
    (pull d cs).2 = [] := by
  unfold pull at h ⊢
  cases hs : scan? d cs with
  | none => rfl
  | some found => simp [hs, isEnd_of_scan? hs] at h

theorem tail_ahead {c : Checker} (h : c.Coherent) :
    c.ahead.tail = (tokens c.dialect c.scanner.rest).map Token.kind := by
  unfold ahead
  split
  · next he =>
    rw [h he, tokens_of_none rfl]
    rfl
  · rfl

theorem front_tail_ahead {c : Checker} (h : c.Coherent) : front c.ahead.tail = c.peek := by
  rw [tail_ahead h, ← pull_kinds]
  split
  · next he => exact (of_decide_eq_true he).symm
  · rfl

/-- What happened between the checker `c` and the later checker `c'`: it came to the spot `σ` and
left the lines `ls`. -/
structure Arrives (c c' : Checker) (ls : List Line) (σ : Spot) : Prop where
  spot : c'.spot = σ
  lines : c'.transcript.lines = c.transcript.lines ++ ls
  settings : c'.settings = c.settings
  coherent : c'.Coherent

theorem Arrives.trans {c c₁ c₂ : Checker} {ls₁ ls₂ : List Line} {σ₁ σ₂ : Spot}
    (h₁ : c.Arrives c₁ ls₁ σ₁) (h₂ : c₁.Arrives c₂ ls₂ σ₂) : c.Arrives c₂ (ls₁ ++ ls₂) σ₂ where
  spot := h₂.spot
  lines := by rw [h₂.lines, h₁.lines, List.append_assoc]
  settings := h₂.settings.trans h₁.settings
  coherent := h₂.coherent

theorem arrives_say {c : Checker} (h : c.Coherent) (l : Line) :
    c.Arrives (c.say l) [l] c.spot where
  spot := rfl
  lines := Journal.lines_transcript_add c.journal (.said l)
  settings := rfl
  coherent := h

/-- To put a diagnostic on record for the log makes no difference to the transcript. -/
theorem arrives_note {c : Checker} (h : c.Coherent) (e : Diagnostic) :
    c.Arrives (c.note e) [] c.spot where
  spot := rfl
  lines := Journal.lines_transcript_add c.journal (.noted e)
  settings := rfl
  coherent := h

theorem arrives_report {c : Checker} (h : c.Coherent) (e : Diagnostic) :
    c.Arrives (c.report e) [.diagnostic e] c.spot :=
  (arrives_note h e).trans (arrives_say (arrives_note h e).coherent _)

theorem arrives_advance {c : Checker} (h : c.Coherent) :
    c.Arrives c.advance [] c.spot.advance where
  spot := by
    have := (pull_kinds c.dialect c.scanner.rest).trans (tail_ahead h).symm
    exact congrArg (Spot.mk · c.depth) this
  lines := Journal.lines_transcript_add c.journal (.scanned c.scanner.next.1)
  settings := rfl
  coherent := pull_coherent c.dialect c.scanner.rest

theorem arrives_recover {c : Checker} (h : c.Coherent) :
    c.Arrives c.recover [] (c.spot.recover c.recovery) := by
  unfold recover Spot.recover
  split
  · exact arrives_advance h
  · exact ⟨rfl, (List.append_nil _).symm, rfl, h⟩

theorem arrives_expect {c : Checker} (h : c.Coherent) (k : Kind) :
    c.Arrives (c.expect k) (c.spot.move c.settings (.expect k)).lines
      (c.spot.move c.settings (.expect k)).spot := by
  have hf : front c.spot.ahead = c.current.kind := c.front_ahead
  by_cases hk : c.current.kind = k
  · rw [expect_of_isAt hk]
    simp only [Spot.move, hf, if_pos hk]
    exact arrives_advance h
  · rw [expect_of_not_isAt hk]
    simp only [Spot.move, hf, if_neg hk]
    have later := arrives_recover h
    exact later.spot ▸ later.trans (arrives_report later.coherent _)

/-- A checker takes a step as the spot does where it stands. -/
theorem perform_arrives {c : Checker} (h : c.Coherent) (step : Step) :
    (c.perform step).2 = (c.spot.move c.settings step).todo ∧
      c.Arrives (c.perform step).1 (c.spot.move c.settings step).lines
        (c.spot.move c.settings step).spot := by
  have stay : c.Arrives c [] c.spot := ⟨rfl, (List.append_nil _).symm, rfl, h⟩
  cases step with
  | expect k =>
    refine ⟨?_, arrives_expect h k⟩
    simp only [perform, Spot.move]
    split <;> rfl
  | mark t => exact ⟨rfl, arrives_say h _⟩
  | report e => exact ⟨rfl, arrives_report h _⟩
  | skip => exact ⟨rfl, arrives_advance h⟩
  | recover => exact ⟨rfl, arrives_recover h⟩
  | phrase p =>
    refine ⟨?_, stay⟩
    simp only [perform, Spot.move, spot, front_ahead, front_tail_ahead h]
    rfl
  | level p =>
    by_cases room : c.depth < c.maxNesting
    · have hr : c.spot.depth < c.settings.maxNesting := room
      simp only [perform, open?, Spot.move, if_pos room, if_pos hr]
      exact ⟨trivial, rfl, (List.append_nil _).symm, rfl, h⟩
    · have hr : ¬c.spot.depth < c.settings.maxNesting := room
      simp only [perform, open?, Spot.move, if_neg room, if_neg hr]
      have told := arrives_report h (.nestingTooDeep c.maxNesting)
      exact ⟨trivial, told.trans (arrives_advance told.coherent)⟩
  | close => exact ⟨rfl, rfl, (List.append_nil _).symm, rfl, h⟩
  | finish => exact ⟨rfl, rfl, Journal.lines_transcript_add c.journal (.finished _ _), rfl, h⟩

/-- **Every run is a walk.** -/
theorem exists_walk {c : Checker} (h : c.Coherent) (agenda : List Step) :
    ∃ i ls σ, Walk c.settings i agenda c.spot ls σ ∧ c.Arrives (c.run agenda) ls σ := by
  fun_induction run c agenda with
  | case1 c => exact ⟨0, [], c.spot, .nil c.spot, rfl, (List.append_nil _).symm, rfl, h⟩
  | case2 c step rest taken ih =>
    obtain ⟨todo, arrives⟩ := perform_arrives h step
    obtain ⟨i, ls, σ, walk, later⟩ := ih arrives.coherent
    rw [arrives.settings, arrives.spot, todo] at walk
    exact ⟨i + 1, _, σ, .cons step walk, arrives.trans later⟩

theorem coherent_ofText (text : String) (s : Settings) : (ofText text s).Coherent :=
  pull_coherent s.dialect text.toList

theorem spot_ofText (text : String) (s : Settings) :
    (ofText text s).spot = ⟨kinds text s.dialect, 0⟩ :=
  congrArg (Spot.mk · 0) (pull_kinds s.dialect text.toList)

theorem current_ofText (text : String) (s : Settings) :
    (ofText text s).current.kind = front (kinds text s.dialect) := by
  rw [← front_ahead]
  exact congrArg (front ∘ Spot.ahead) (spot_ofText text s)

end Checker

/-! ## Whole programs -/

/-- The walk of a check of a whole program. -/
theorem exists_walk_check (text : String) (s : Settings) :
    ∃ i σ, Walk s i [.phrase .program] ⟨kinds text s.dialect, 0⟩ (check text s).lines σ := by
  obtain ⟨i, ls, σ, walk, arrives⟩ :=
    Checker.exists_walk (Checker.coherent_ofText text s) [Phrase.step .program]
  rw [Checker.spot_ofText] at walk
  have lines : (check text s).lines = ls := arrives.lines
  exact ⟨i, σ, lines ▸ walk⟩

/-- A walk over the kinds of a text tells what the check of the text says. -/
theorem Walk.lines_check {text : String} {s : Settings} {i : Nat} {ls : List Line} {σ : Spot}
    (h : Walk s i [.phrase .program] ⟨kinds text s.dialect, 0⟩ ls σ) :
    (check text s).lines = ls := by
  obtain ⟨_, _, walk⟩ := exists_walk_check text s
  exact (walk.unique h).1

/-- The steps for the parts of a program. -/
def programSteps : List Step :=
  [.expect .kwProgram, .expect .identifier, .expect .semicolon, .phrase .block, .expect .dot]

section

variable {text : String} {s : Settings}

/-- A text that starts as a program does is checked part by part, and that is put on record. -/
theorem checked_of_program (h : (Checker.ofText text s).current.kind = .kwProgram) :
    checked text s = ((Checker.ofText text s).run programSteps).finish := by
  have steps : (Checker.ofText text s).perform (.phrase .program) =
      (Checker.ofText text s, programSteps ++ [.finish]) := by
    simp [Checker.perform, Grammar.expand, programSteps, h]
  show (Checker.ofText text s).run [.phrase .program] = _
  rw [Checker.run_cons, steps, List.append_nil, Checker.run_append, Checker.run_cons]
  exact Checker.run_nil _

/-- Of a text that does not, nothing but its first token is checked. -/
theorem checked_of_ne (h : (Checker.ofText text s).current.kind ≠ .kwProgram) :
    checked text s = (Checker.ofText text s).report
      (.expected .kwProgram (Checker.ofText text s).current.kind) := by
  have steps : (Checker.ofText text s).perform (.phrase .program) = (Checker.ofText text s,
      [.report (.expected .kwProgram (Checker.ofText text s).current.kind)]) := by
    simp [Checker.perform, Grammar.expand, h]
  show (Checker.ofText text s).run [.phrase .program] = _
  rw [Checker.run_cons, steps, List.append_nil, Checker.run_cons]
  exact Checker.run_nil _

theorem lines_check_of_ne (h : (Checker.ofText text s).current.kind ≠ .kwProgram) :
    (check text s).lines =
      [.diagnostic (.expected .kwProgram (Checker.ofText text s).current.kind)] := by
  rw [check, checked_of_ne h]
  rfl

end

end MiniPascal
