import MiniPascal.Proofs.Cost

/-!
# Frames and levels

Whoever holds a checker may call it as often as they like and in any order: have phrases checked,
have tokens consumed, and do all this one level deeper. Nothing that is called disturbs its caller.

* `Script` — calls, one after the other, and `Checker.follow`, which makes them.
* `Moment` — the checkers that are passed in the meantime, with what is left of the check of a
  phrase.
* `Frame` — what a call gives back as it was: the number of open levels, the text and the settings.
  The place in the text only moves on, and the transcript only grows.
* `Checker.Kept` — a property that every step keeps. All calls keep it, and it holds at all moments.
* `Step.Backed` — the invariant of agendas for the levels of a whole check. A level is opened only
  where more tokens have been consumed than levels are open, and the phrase on it consumes one
  before it opens the next.

**Theorem (`Checker.frame_follow`).** All calls keep the frame.

**Theorem (`Moment.within`).** There are never more levels open than the settings allow.

**Theorem (`Checker.backed_tick`).** Every step of a check keeps its levels backed by tokens.

For every script and every whole program this is `calls_keep_frames_and_levels`.
-/

namespace MiniPascal

open Grammar

/-! ## Scripts -/

/-- Something that a checker can be asked for. -/
inductive Call where
  /-- Check a phrase. -/
  | parse (p : Phrase)
  /-- Consume a token of this kind. If another is there, report it and recover. -/
  | expect (k : Kind)
  /-- The same, but the diagnostic is handed to the caller. -/
  | require (k : Kind)
  /-- Consume a token, whatever it is. -/
  | advance
  deriving DecidableEq, Repr

/-- Calls, one after the other. -/
inductive Script where
  | done
  | call (x : Call) (more : Script)
  /-- Make the calls `inside` one level deeper, and then go on. -/
  | nested (inside more : Script)
  deriving DecidableEq, Repr

namespace Checker

/-- The checker after a call. -/
def answer (c : Checker) : Call → Checker
  | .parse p => c.parse p
  | .expect k => c.expect k
  | .require k => (c.require k).2
  | .advance => c.advance

/-- The checker after all the calls of a script. -/
def follow (c : Checker) : Script → Checker
  | .done => c
  | .call x more => (c.answer x).follow more
  | .nested inside more =>
    (c.nested (m := Id) fun inner => ((), inner.follow inside)).2.follow more

end Checker

/-- While the checker `c` follows a script it comes by the checker `m`, and `agenda` is then left of
the phrase that is being checked. -/
inductive Moment : Checker → Script → Checker → List Step → Prop
  | here (c : Checker) (script : Script) : Moment c script c []
  | parsing (c : Checker) (p : Phrase) (more : Script) (i : Nat) :
      Moment c (.call (.parse p) more) (Checker.tick^[i] (c, [p.step])).1
        (Checker.tick^[i] (c, [p.step])).2
  | called {c m : Checker} {x : Call} {more : Script} {agenda : List Step}
      (h : Moment (c.answer x) more m agenda) : Moment c (.call x more) m agenda
  | inside {c inner m : Checker} {calls more : Script} {agenda : List Step}
      (room : c.open? = some inner) (h : Moment inner calls m agenda) :
      Moment c (.nested calls more) m agenda
  | behind {c m : Checker} {calls more : Script} {agenda : List Step}
      (h : Moment (c.follow (.nested calls .done)) more m agenda) :
      Moment c (.nested calls more) m agenda

/-! ## Frames -/

/-- What a checker leaves alone on its way from `c` to `c'`, and what it only adds to. -/
structure Frame (c c' : Checker) : Prop where
  depth : c'.depth = c.depth
  text : c'.scanner.text = c.scanner.text
  settings : c'.settings = c.settings
  position : c.position ≤ c'.position
  lines : c.transcript.lines <+: c'.transcript.lines

namespace Frame

theorem refl (c : Checker) : Frame c c where
  depth := rfl
  text := rfl
  settings := rfl
  position := Nat.le_refl _
  lines := List.prefix_rfl

theorem trans {c c₁ c₂ : Checker} (h₁ : Frame c c₁) (h₂ : Frame c₁ c₂) : Frame c c₂ where
  depth := h₂.depth.trans h₁.depth
  text := h₂.text.trans h₁.text
  settings := h₂.settings.trans h₁.settings
  position := Nat.le_trans h₁.position h₂.position
  lines := h₁.lines.trans h₂.lines

end Frame

/-! ### Runs -/

theorem Scanner.position_le_next (s : Scanner) : s.position ≤ s.next.2.position :=
  Nat.le_trans (Nat.le_add_right _ _) s.position_add_le_next

namespace Checker

variable {c : Checker} {agenda : List Step}

/-- The current token, and the scanner behind it. -/
def register (c : Checker) : Token × Scanner := (c.current, c.scanner)

/-- A step leaves the current token and the scanner as they are, or has the scanner read one token,
which is then the current one. -/
theorem register_perform (c : Checker) (step : Step) :
    (c.perform step).1.register = c.register ∨ (c.perform step).1.register = c.scanner.next := by
  have recovered : c.recover.register = c.register ∨ c.recover.register = c.scanner.next := by
    unfold recover
    split
    · exact .inr rfl
    · exact .inl rfl
  cases step with
  | expect k =>
    simp only [perform]
    by_cases hk : c.current.kind = k
    · rw [expect_of_isAt hk]
      exact .inr rfl
    · rw [expect_of_not_isAt hk]
      exact recovered
  | skip => exact .inr rfl
  | recover => exact recovered
  | level p =>
    unfold perform open?
    by_cases room : c.depth < c.maxNesting
    · rw [if_pos room]
      exact .inl rfl
    · rw [if_neg room]
      exact .inr rfl
  | _ => exact .inl rfl

/-- A step reads on in the same text. -/
theorem reads_on_perform (c : Checker) (step : Step) :
    (c.perform step).1.scanner.text = c.scanner.text ∧
      c.position ≤ (c.perform step).1.position := by
  unfold position
  rcases register_perform c step with same | next
  · have scanner : (c.perform step).1.scanner = c.scanner := congrArg Prod.snd same
    rw [scanner]
    exact ⟨rfl, Nat.le_refl _⟩
  · have scanner : (c.perform step).1.scanner = c.scanner.next.2 := congrArg Prod.snd next
    rw [scanner]
    exact ⟨rfl, c.scanner.position_le_next⟩

/-- A run reads on in the same text. -/
theorem reads_on_run (c : Checker) (agenda : List Step) :
    (c.run agenda).scanner.text = c.scanner.text ∧ c.position ≤ (c.run agenda).position := by
  fun_induction run c agenda with
  | case1 c => exact ⟨rfl, Nat.le_refl _⟩
  | case2 c step rest taken ih =>
    obtain ⟨text, position⟩ := reads_on_perform c step
    exact ⟨ih.1.trans text, Nat.le_trans position ih.2⟩

/-- A run that closes no level from outside keeps the frame. -/
theorem frame_run (h : c.Coherent) (noClose : .close ∉ agenda) : Frame c (c.run agenda) := by
  obtain ⟨i, ls, σ, walk, arrives⟩ := exists_walk h agenda
  obtain ⟨text, position⟩ := reads_on_run c agenda
  have depth : σ.depth = c.depth := by
    rw [walk.depth_eq, List.count_eq_zero.2 noClose]
    rfl
  exact ⟨(congrArg Spot.depth arrives.spot).trans depth, text, arrives.settings, position,
    ⟨ls, arrives.lines.symm⟩⟩

theorem run_expect (c : Checker) (k : Kind) : c.run [.expect k] = c.expect k := by
  rw [run_cons]
  exact run_nil _

theorem run_skip (c : Checker) : c.run [.skip] = c.advance := by
  rw [run_cons]
  exact run_nil _

theorem run_recover (c : Checker) : c.run [.recover] = c.recover := by
  rw [run_cons]
  exact run_nil _

/-- Each call is a run that takes one step. -/
theorem exists_answer_eq_run (c : Checker) (x : Call) :
    ∃ step, step ≠ .close ∧ c.answer x = c.run [step] := by
  cases x with
  | parse p => exact ⟨p.step, by cases p <;> simp [Phrase.step], rfl⟩
  | expect k => exact ⟨.expect k, by simp, (run_expect c k).symm⟩
  | require k =>
    by_cases hk : c.current.kind = k
    · exact ⟨.skip, by simp, by simp [answer, require, isAt, hk, run_skip]⟩
    · exact ⟨.recover, by simp, by simp [answer, require, isAt, hk, run_recover]⟩
  | advance => exact ⟨.skip, by simp, (run_skip c).symm⟩

/-! ### Levels and ticks -/

section

variable {c inner : Checker} {calls more : Script}

theorem open?_eq_some_iff : c.open? = some inner ↔
    c.depth < c.maxNesting ∧ { c with depth := c.depth + 1 } = inner := by
  unfold open?
  by_cases room : c.depth < c.maxNesting
  · simp [room]
  · simp [room]

/-- Where no level is left, that is reported and a token is consumed. -/
theorem refuse_eq_run (c : Checker) :
    c.refuse = c.run [.report (.nestingTooDeep c.maxNesting), .skip] := by
  rw [run_cons]
  exact (run_skip _).symm

theorem follow_nested_of_some (room : c.open? = some inner) :
    c.follow (.nested calls more) = (inner.follow calls).close.follow more := by
  simp only [follow, nested, room]
  rfl

theorem follow_nested_of_none (room : c.open? = none) :
    c.follow (.nested calls more) = c.refuse.follow more := by
  simp only [follow, nested, room]
  rfl

/-- However far a run has got, what is left of it leads to its end. -/
theorem run_ticks (c : Checker) (agenda : List Step) (i : Nat) :
    (tick^[i] (c, agenda)).1.run (tick^[i] (c, agenda)).2 = c.run agenda := by
  induction i with
  | zero => rfl
  | succ i ih =>
    rw [Function.iterate_succ_apply', ← ih]
    generalize tick^[i] (c, agenda) = x
    obtain ⟨c, agenda⟩ := x
    cases agenda with
    | nil => rfl
    | cons step rest => exact (run_cons c step rest).symm

end

/-! ## What every step keeps -/

/-- Whatever step is taken, the property is kept. -/
def Kept (P : Checker → Prop) : Prop := ∀ ⦃c : Checker⦄, P c → ∀ step, P (c.perform step).1

namespace Kept

variable {P : Checker → Prop} {c inner : Checker}

theorem ticks (kept : Kept P) (h : P c) (agenda : List Step) (i : Nat) :
    P (Checker.tick^[i] (c, agenda)).1 := by
  induction i with
  | zero => exact h
  | succ i ih =>
    rw [Function.iterate_succ_apply']
    generalize Checker.tick^[i] (c, agenda) = x at ih
    obtain ⟨c, agenda⟩ := x
    cases agenda with
    | nil => exact ih
    | cons step rest => exact kept ih step

theorem run (kept : Kept P) (h : P c) (agenda : List Step) : P (c.run agenda) := by
  fun_induction Checker.run c agenda with
  | case1 => exact h
  | case2 c step rest taken ih => exact ih (kept h step)

theorem answer (kept : Kept P) (h : P c) (x : Call) : P (c.answer x) := by
  obtain ⟨step, -, eq⟩ := c.exists_answer_eq_run x
  rw [eq]
  exact kept.run h [step]

theorem open? (kept : Kept P) (h : P c) (room : c.open? = some inner) : P inner := by
  -- To open a level is a step, whatever phrase is to be checked on it.
  have opened := kept h (.level .factor)
  simp only [perform, room] at opened
  exact opened

theorem close (kept : Kept P) (h : P c) : P c.close := kept h .close

theorem refuse (kept : Kept P) (h : P c) : P c.refuse := by
  rw [refuse_eq_run]
  exact kept.run h _

theorem follow (kept : Kept P) (h : P c) (script : Script) : P (c.follow script) := by
  induction script generalizing c with
  | done => exact h
  | call x more ih => exact ih (kept.answer h x)
  | nested calls more ihc ihm =>
    cases room : c.open? with
    | some inner =>
      rw [follow_nested_of_some room]
      exact ihm (kept.close (ihc (kept.open? h room)))
    | none =>
      rw [follow_nested_of_none room]
      exact ihm (kept.refuse h)

/-- **What every step keeps is kept at every moment.** -/
theorem moment (kept : Kept P) {m : Checker} {script : Script} {agenda : List Step}
    (moment : Moment c script m agenda) (h : P c) : P m := by
  induction moment with
  | here => exact h
  | parsing c p more i => exact kept.ticks h _ i
  | called _ ih => exact ih (kept.answer h _)
  | inside room _ ih => exact ih (kept.open? h room)
  | behind _ ih => exact ih (kept.follow h _)

/-- What holds at some moment is kept up to the end of the script. -/
theorem behind (kept : Kept P) {m : Checker} {script : Script} {agenda : List Step}
    (moment : Moment c script m agenda) (h : P m) : P (c.follow script) := by
  induction moment with
  | here c script => exact kept.follow h script
  | parsing c p more i =>
    have parsed : P (c.run [p.step]) := c.run_ticks [p.step] i ▸ kept.run h _
    exact kept.follow parsed more
  | called _ ih => exact ih h
  | inside room _ ih =>
    rw [follow_nested_of_some room]
    exact kept.follow (kept.close (ih h)) _
  | @behind c _ calls more _ _ ih =>
    show P ((c.follow (.nested calls .done)).follow more)
    exact ih h

end Kept

/-! ## Levels within their bound -/

/-- The checker is one for the text and the settings `s`, and its levels are within their bound. -/
structure Within (text : String) (s : Settings) (c : Checker) : Prop where
  coherent : c.Coherent
  text : c.scanner.text = text
  settings : c.settings = s
  depth_le : c.depth ≤ s.maxNesting

end Checker

/-- A step opens a level only within the bound. -/
theorem Spot.depth_move_le {s : Settings} {σ : Spot} (le : σ.depth ≤ s.maxNesting) (step : Step) :
    (σ.move s step).spot.depth ≤ s.maxNesting := by
  cases step with
  | expect k =>
    by_cases hk : front σ.ahead = k
    · rw [move_expect hk]
      exact le
    · rw [move_expect_of_ne hk, depth_recover]
      exact le
  | recover =>
    show (σ.recover s.recovery).depth ≤ _
    rw [depth_recover]
    exact le
  | level p =>
    by_cases room : σ.depth < s.maxNesting
    · rw [move_level p room]
      exact room
    · rw [move_level_of_not p room]
      exact le
  | close => exact Nat.le_trans (Nat.sub_le _ _) le
  | _ => exact le

namespace Checker

variable {text : String} {s : Settings} {c : Checker}

namespace Within

theorem ofText (text : String) (s : Settings) : (ofText text s).Within text s where
  coherent := coherent_ofText text s
  text := rfl
  settings := rfl
  depth_le := Nat.zero_le _

theorem kept (text : String) (s : Settings) : Kept (Within text s) := by
  intro c h step
  obtain ⟨coherent, rfl, rfl, le⟩ := h
  have arrives := (perform_arrives coherent step).2
  have depth : (c.perform step).1.depth = (c.spot.move c.settings step).spot.depth :=
    congrArg Spot.depth arrives.spot
  refine ⟨arrives.coherent, (reads_on_perform c step).1, arrives.settings, ?_⟩
  rw [depth]
  exact Spot.depth_move_le le step

theorem ticks (h : c.Within text s) (agenda : List Step) (i : Nat) :
    (Checker.tick^[i] (c, agenda)).1.Within text s := (kept text s).ticks h agenda i

end Within

/-- **All calls keep the frame.** -/
theorem frame_follow (h : c.Within text s) (script : Script) : Frame c (c.follow script) := by
  induction script generalizing c with
  | done => exact .refl c
  | call x more ih =>
    obtain ⟨step, ne, eq⟩ := c.exists_answer_eq_run x
    have here : Frame c (c.answer x) := by
      rw [eq]
      exact frame_run h.coherent (by simpa using ne.symm)
    exact here.trans (ih ((Within.kept text s).answer h x))
  | nested calls more ihc ihm =>
    cases room : c.open? with
    | some inner =>
      rw [follow_nested_of_some room]
      have inside := (Within.kept text s).open? h room
      have frame := ihc inside
      have later := ihm ((Within.kept text s).close ((Within.kept text s).follow inside calls))
      obtain ⟨-, rfl⟩ := open?_eq_some_iff.1 room
      have here : Frame c (follow { c with depth := c.depth + 1 } calls).close :=
        { frame with depth := congrArg (· - 1) frame.depth }
      exact here.trans later
    | none =>
      rw [follow_nested_of_none room]
      have here : Frame c c.refuse := by
        rw [refuse_eq_run]
        exact frame_run h.coherent (by simp)
      exact here.trans (ihm ((Within.kept text s).refuse h))

end Checker

/-- **There are never more levels open than the settings allow.** -/
theorem Moment.within {text : String} {s : Settings} {c m : Checker} {script : Script}
    {agenda : List Step} (moment : Moment c script m agenda) (h : c.Within text s) :
    m.Within text s := (Checker.Within.kept text s).moment moment h

/-! ## Parts of a phrase -/

/-- A run of a part of an agenda is a part of the run. -/
theorem Checker.exists_iterate_tick_append (c : Checker) (agenda rest : List Step) :
    ∃ i, tick^[i] (c, agenda ++ rest) = (c.run agenda, rest) := by
  fun_induction run c agenda with
  | case1 c => exact ⟨0, rfl⟩
  | case2 c step more taken ih =>
    obtain ⟨i, ends⟩ := ih
    refine ⟨i + 1, ?_⟩
    rw [List.append_assoc] at ends
    exact ends

/-! ## Levels backed by tokens -/

/-- The phrase opens no level before it has consumed a token, or there is a token to `spare` for
that. -/
def Phrase.Backed (c : Kind) (spare : Prop) : Phrase → Prop
  | program | command | factor | variableName | compound | conditional | repetition
  | procedureCall => True
  | assignment => spare ∨ c = .identifier
  | procedureDeclaration => spare ∨ c = .kwProcedure
  | _ => spare

theorem Phrase.Backed.mono {c : Kind} {spare spare' : Prop} {p : Phrase} (more : spare → spare')
    (h : p.Backed c spare) : p.Backed c spare' := by
  cases p <;> first | trivial | exact more h | exact h.imp_left more

namespace Step

/-- Where `depth` levels are open and `read` tokens have been consumed, and the next is of the kind
`c`, the agenda opens a level only if more tokens have been consumed than levels are open. -/
def Backed (c : Kind) (depth read : Nat) : List Step → Prop
  | [] => True
  | .mark _ :: rest | .report _ :: rest | .finish :: rest => Backed c depth read rest
  | .expect k :: rest =>
    (∀ c', Backed c' depth read rest) ∨
      k = c ∧ k ≠ .endOfText ∧ ∀ c', Backed c' depth (read + 1) rest
  | .skip :: rest | .recover :: rest => ∀ c', Backed c' depth read rest
  | .phrase p :: rest =>
    p.Backed c (depth < read) ∧
      ((∀ c', Backed c' depth read rest) ∨ p.consumes c ∧ ∀ c', Backed c' depth (read + 1) rest)
  | .level p :: rest =>
    depth < read ∧ p.Backed c (depth + 1 < read) ∧ ∀ c', Backed c' depth read rest
  | .close :: rest => 0 < depth ∧ Backed c (depth - 1) read rest

variable {c : Kind} {depth read read' : Nat} {agenda : List Step}

theorem Backed.mono (le : read ≤ read') (h : Backed c depth read agenda) :
    Backed c depth read' agenda := by
  induction agenda generalizing c depth read read' with
  | nil => trivial
  | cons step rest ih =>
    cases step with
    | expect k =>
      rcases h with later | ⟨rfl, ne, later⟩
      · exact .inl fun c' => ih le (later c')
      · exact .inr ⟨rfl, ne, fun c' => ih (Nat.succ_le_succ le) (later c')⟩
    | mark | report | finish => exact ih le h
    | skip | recover => exact fun c' => ih le (h c')
    | phrase p =>
      obtain ⟨backed, later⟩ := h
      refine ⟨backed.mono fun lt => Nat.lt_of_lt_of_le lt le, ?_⟩
      rcases later with later | ⟨consumes, later⟩
      · exact .inl fun c' => ih le (later c')
      · exact .inr ⟨consumes, fun c' => ih (Nat.succ_le_succ le) (later c')⟩
    | level p =>
      obtain ⟨spare, backed, later⟩ := h
      exact ⟨Nat.lt_of_lt_of_le spare le, backed.mono fun lt => Nat.lt_of_lt_of_le lt le,
        fun c' => ih le (later c')⟩
    | close => exact ⟨h.1, ih le h.2⟩

end Step

/-- The steps for a phrase are backed as the phrase is. -/
theorem Grammar.backed_expand (d : Dialect) {p : Phrase} {c : Kind} {depth read : Nat}
    {rest : List Step} (next : Kind) (le : depth ≤ read)
    (h : Step.Backed c depth read (.phrase p :: rest)) :
    Step.Backed c depth read (expand d p c next ++ rest) := by
  obtain ⟨ready, later⟩ := h
  have lt : depth < read + 1 := Nat.lt_succ_of_le le
  rcases later with later | ⟨consumes, later⟩
  · have further : ∀ c', Step.Backed c' depth (read + 1) rest :=
      fun c' => (later c').mono (Nat.le_succ read)
    cases p
    case assignment | procedureDeclaration =>
      rcases ready with spare | rfl <;>
        simp_all [expand, Step.Backed, Phrase.Backed, Phrase.consumes]
    all_goals
      simp only [expand, commandSteps, factorSteps]
      (repeat' split) <;> simp_all [Step.Backed, Phrase.Backed]
  · unfold Phrase.consumes at consumes
    split at consumes <;> simp_all [expand, Step.Backed, Phrase.Backed, Phrase.consumes]

/-! ### Runs of whole programs -/

/-- At least as many of the `total` tokens of a text have been consumed as levels are open, and the
agenda keeps it so. -/
def Spot.Backed (total : Nat) (σ : Spot) (agenda : List Step) : Prop :=
  ∃ read, σ.depth ≤ read ∧ read + σ.ahead.length ≤ total ∧
    Step.Backed (front σ.ahead) σ.depth read agenda

namespace Spot

variable {σ : Spot} {step : Step} {rest : List Step} {s : Settings} {total : Nat}

/-- **Every step keeps the levels backed by tokens.** -/
theorem backed_move (h : σ.Backed total (step :: rest)) :
    (σ.move s step).spot.Backed total ((σ.move s step).todo ++ rest) := by
  obtain ⟨read, le, room, backed⟩ := h
  have advanced (later : ∀ c', Step.Backed c' σ.depth read rest) : σ.advance.Backed total rest := by
    have := σ.length_advance_le
    exact ⟨read, le, by omega, later _⟩
  have recovered (later : ∀ c', Step.Backed c' σ.depth read rest) :
      (σ.recover s.recovery).Backed total rest := by
    unfold recover
    split
    · exact advanced later
    · exact ⟨read, le, room, later _⟩
  cases step with
  | expect k =>
    by_cases hk : front σ.ahead = k
    · rw [move_expect hk]
      rcases backed with later | ⟨-, ne, later⟩
      · exact advanced later
      · have consumed : σ.advance.ahead.length < σ.ahead.length := length_advance_lt (hk ▸ ne)
        have room : read + 1 + σ.advance.ahead.length ≤ total := by omega
        exact ⟨read + 1, Nat.le_succ_of_le le, room, later _⟩
    · rw [move_expect_of_ne hk]
      rcases backed with later | ⟨same, -⟩
      · exact recovered later
      · exact absurd same.symm hk
  | mark | report | finish => exact ⟨read, le, room, backed⟩
  | skip => exact advanced backed
  | recover => exact recovered backed
  | phrase p => exact ⟨read, le, room, Grammar.backed_expand s.dialect _ le backed⟩
  | level p =>
    obtain ⟨spare, ready, later⟩ := backed
    by_cases free : σ.depth < s.maxNesting
    · rw [move_level p free]
      exact ⟨read, spare, room, ready, .inl fun c' => ⟨Nat.succ_pos _, later c'⟩⟩
    · rw [move_level_of_not p free]
      exact advanced later
  | close => exact ⟨read, Nat.le_trans (Nat.sub_le _ _) le, room, backed.2⟩

end Spot

namespace Checker

variable {text : String} {s : Settings} {total : Nat}

/-- The number of tokens that have been consumed. -/
def consumed (c : Checker) : Nat :=
  (tokens c.dialect c.scanner.text.toList).length - c.ahead.length

theorem backed_tick {x : Checker × List Step} (h : x.1.Coherent)
    (backed : x.1.spot.Backed total x.2) : (tick x).1.spot.Backed total (tick x).2 := by
  obtain ⟨c, agenda⟩ := x
  cases agenda with
  | nil => exact backed
  | cons step rest =>
    obtain ⟨todo, arrives⟩ := perform_arrives h step
    show (c.perform step).1.spot.Backed total ((c.perform step).2 ++ rest)
    rw [todo, arrives.spot]
    exact Spot.backed_move backed

theorem depth_le_consumed {c : Checker} {agenda : List Step} (within : c.Within text s)
    (backed : c.spot.Backed (tokens s.dialect text.toList).length agenda) :
    c.depth ≤ c.consumed := by
  obtain ⟨read, le, room, -⟩ := backed
  obtain ⟨-, rfl, rfl, -⟩ := within
  exact Nat.le_trans le (Nat.le_sub_of_add_le room)

/-- The levels of a check of a whole program are backed by its tokens. -/
theorem backed_ticks (text : String) (s : Settings) (i : Nat) :
    (tick^[i] (ofText text s, [.phrase .program])).1.spot.Backed
      (tokens s.dialect text.toList).length (tick^[i] (ofText text s, [.phrase .program])).2 := by
  induction i with
  | zero =>
    show (ofText text s).spot.Backed _ [.phrase .program]
    rw [spot_ofText]
    refine ⟨0, Nat.le_refl 0, ?_, trivial, .inl fun _ => trivial⟩
    simp [kinds]
  | succ i ih =>
    rw [Function.iterate_succ_apply']
    exact backed_tick ((Within.ofText text s).ticks _ i).coherent ih

end Checker

/-- What holds at every moment. No more levels are open than the settings allow, every call keeps
the frame, and so does the check of every part of the phrase that is being checked. -/
structure Checker.Undisturbed (text : String) (s : Settings) (c : Checker) (agenda : List Step) :
    Prop where
  text : c.scanner.text = text
  settings : c.settings = s
  depth_le : c.depth ≤ s.maxNesting
  calls : ∀ script, Frame c (c.follow script)
  parts : ∀ step rest, agenda = step :: rest → step ≠ .close →
    Frame c (c.run [step]) ∧ ∃ i, tick^[i] (c, agenda) = (c.run [step], rest)

/-- **Calls keep the frame, and levels are bounded.** Whatever is asked of a checker, at each moment
its levels are within their bound, and every call comes back on the level where it was made, in the
same text, not in front of the place where it started, with the lines that were there before. In
the check of a whole program there are also never more levels open than tokens consumed. -/
theorem calls_keep_frames_and_levels (text : String) (s : Settings) :
    (∀ script m agenda, Moment (.ofText text s) script m agenda → m.Undisturbed text s agenda) ∧
      ∀ i, (Checker.tick^[i] (.ofText text s, [.phrase .program])).1.depth ≤
        (Checker.tick^[i] (.ofText text s, [.phrase .program])).1.consumed := by
  constructor
  · intro script m agenda moment
    have within := moment.within (.ofText text s)
    refine ⟨within.text, within.settings, within.depth_le, Checker.frame_follow within, ?_⟩
    rintro step rest rfl ne
    refine ⟨Checker.frame_run within.coherent (by simpa using ne.symm), ?_⟩
    exact m.exists_iterate_tick_append [step] rest
  · intro i
    have within := (Checker.Within.ofText text s).ticks [.phrase .program] i
    exact Checker.depth_le_consumed within (Checker.backed_ticks text s i)

end MiniPascal
