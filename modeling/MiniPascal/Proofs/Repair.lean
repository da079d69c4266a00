import MiniPascal.Proofs.Acceptance

/-!
# Repaired texts

A check that misses a token reports it and goes on as if the token had been there. This module says
so of whole checks: there is a text, the repaired one, in which the missing tokens are there, and
its check leaves the same traces without any report.

* `Repairs` — how the tokens of a text are repaired, diagnostic by diagnostic.
* `Diagnostic.repairable` — the diagnostics for which there is such a repair. The others are about
  a program or a command that is no such thing from its first token on, or about levels.
* `Entered` — some symbols come up in a check only when their first token has been seen. A check
  never misses this token.

**Theorem (`Passage.hasRepair`).** Where a walk leaves repairable reports there is one over the same
agenda through repaired tokens. It takes the same alternatives, since the repaired tokens are
derived from them and one token of lookahead is enough to tell (`expand_eq`).

For the `insert` policy and whole programs this is `exists_repair_of_insert`.
-/

namespace MiniPascal

open Grammar

/-! ## Repairs -/

/-- What is left of some tokens once the first has been found not to fit. -/
def Recovery.leave (r : Recovery) (ks : List Kind) : List Kind :=
  if r.consumesMismatch then ks.tail else ks

/-- The tokens `ks'` are the tokens `ks`, repaired for the diagnostics `ds` in order. A missing
token or type comes in front of the token that was found, or in its stead if the policy consumes
it; a name comes in the stead of what is no factor. At the end of the tokens nothing is replaced. -/
inductive Repairs (r : Recovery) : List Kind → List Diagnostic → List Kind → Prop
  | done : Repairs r [] [] []
  | keep (k : Kind) {ks ks' : List Kind} {ds : List Diagnostic} (h : Repairs r ks ds ks') :
      Repairs r (k :: ks) ds (k :: ks')
  | token (k : Kind) {ks ks' : List Kind} {ds : List Diagnostic}
      (h : Repairs r (r.leave ks) ds ks') :
      Repairs r ks (.expected k (front ks) :: ds) (k :: ks')
  | type {k : Kind} (hk : k ∈ typeKinds) {ks ks' : List Kind} {ds : List Diagnostic}
      (h : Repairs r (r.leave ks) ds ks') :
      Repairs r ks (.expectedType (front ks) :: ds) (k :: ks')
  | factor {ks ks' : List Kind} {ds : List Diagnostic} (h : Repairs r ks.tail ds ks') :
      Repairs r ks (.expectedFactor (front ks) :: ds) (.identifier :: ks')

theorem Repairs.refl (r : Recovery) (ks : List Kind) : Repairs r ks [] ks := by
  induction ks with
  | nil => exact .done
  | cons k ks ih => exact .keep k ih

/-- There is a token that makes up for what the diagnostic reports. -/
def Diagnostic.repairable : Diagnostic → Bool
  | expected k _ => k != .kwProgram && k != .kwBegin
  | expectedType _ | expectedFactor _ => true
  | _ => false

/-- The lines without the diagnostics. -/
def traced (ls : List Line) : List Line := ls.filter fun l => l.diagnostic?.isNone

@[simp] theorem traced_nil : traced [] = [] := rfl

@[simp] theorem traced_trace (t : Trace) (ls : List Line) :
    traced (.trace t :: ls) = .trace t :: traced ls := rfl

@[simp] theorem traced_diagnostic (e : Diagnostic) (ls : List Line) :
    traced (.diagnostic e :: ls) = traced ls := rfl

@[simp] theorem traced_append (ls ls' : List Line) :
    traced (ls ++ ls') = traced ls ++ traced ls' := List.filter_append ..

@[simp] theorem reports_traced (ls : List Line) : reports (traced ls) = [] := by
  induction ls with
  | nil => rfl
  | cons l ls ih =>
    cases l with
    | trace t => exact ih
    | diagnostic e => exact ih

/-! ## Symbols whose first token has been seen -/

/-- The symbol comes up only when the first token of it is in front. -/
def Symbol.guarded : Symbol → Bool
  | token .kwElse | phrase .procedureCall | phrase .conditional | phrase .repetition => true
  | _ => false

/-- Of the symbols at most the first is guarded, and then it starts with the kind `c`. -/
def Entered (d : Dialect) (c : Kind) : List Symbol → Prop
  | [] => True
  | symbol :: ss =>
    (symbol.guarded → c ∈ starts d [] [symbol]) ∧ ∀ other ∈ ss, other.guarded = false

instance decidableEntered (d : Dialect) (c : Kind) : (ss : List Symbol) → Decidable (Entered d c ss)
  | [] => .isTrue trivial
  | _ :: _ => inferInstanceAs (Decidable (_ ∧ _))

theorem Entered.tail {d : Dialect} {c c' : Kind} {symbol : Symbol} {ss : List Symbol}
    (h : Entered d c (symbol :: ss)) : Entered d c' ss := by
  cases ss with
  | nil => trivial
  | cons other ss =>
    have no : other.guarded = false := h.2 other List.mem_cons_self
    exact ⟨fun yes => by simp [no] at yes, fun s hs => h.2 s (List.mem_cons_of_mem _ hs)⟩

namespace Grammar

variable {d : Dialect} {p : Phrase} {c : Kind}

theorem entered_expand (d : Dialect) (p : Phrase) (c next : Kind) :
    Entered d c (Step.form (expand d p c next)) := by
  have table : ∀ c ∈ Kind.all, ∀ next ∈ [Kind.assign, .error],
      Entered d c (Step.form (expand d p c next)) := by
    cases d <;> cases p <;> decide +kernel
  exact of_table (P := fun steps => Entered d c (Step.form steps)) (table c (Kind.mem_all c)) next

/-- If a phrase can start with the token in front, the alternative that is taken does. -/
theorem mem_starts_expand (h : c ∈ first d p) (next : Kind) :
    c ∈ starts d [] (Step.form (expand d p c next)) := by
  have table : ∀ c ∈ first d p, ∀ next ∈ [Kind.assign, .error],
      c ∈ starts d [] (Step.form (expand d p c next)) := by
    cases d <;> cases p <;> decide
  exact of_table (P := fun steps => c ∈ starts d [] (Step.form steps)) (table c h) next

theorem mem_first_command {next : Kind} (h : Step.fault? (expand d .command c next) = none) :
    c ∈ first d .command := by
  cases c <;> first | (simp [first]; done) | cases h

/-- The only faults that can be repaired are those of a type and of a factor, but for faults that a
guarded phrase cannot have. -/
theorem expand_of_fault {next : Kind} {e : Diagnostic}
    (fault : Step.fault? (expand d p c next) = some e) (repairable : e.repairable)
    (guard : (Symbol.phrase p).guarded → c ∈ first d p) :
    c ∉ first d p ∧
      (p = .type ∧ expand d p c next = [.report (.expectedType c), .recover] ∨
        p = .factor ∧ expand d p c next = [.report (.expectedFactor c), .skip]) := by
  have table : ∀ c ∈ Kind.all, ∀ e ∈ Step.fault? (expand d p c .error), e.repairable →
      ((Symbol.phrase p).guarded → c ∈ first d p) →
        c ∉ first d p ∧
          (p = .type ∧ expand d p c .error = [.report (.expectedType c), .recover] ∨
            p = .factor ∧ expand d p c .error = [.report (.expectedFactor c), .skip]) := by
    cases d <;> cases p <;> decide +kernel
  by_cases hc : p = .command ∧ c = .identifier
  · obtain ⟨rfl, rfl⟩ := hc
    rw [expand_next] at fault
    split at fault <;> cases d <;> cases fault
  · rw [expand_eq_of_ne d next .error hc] at fault ⊢
    exact table c (Kind.mem_all c) e fault repairable guard

end Grammar

/-! ## The repaired walk -/

theorem Spot.recover_eq (σ : Spot) (r : Recovery) :
    σ.recover r = ⟨r.leave σ.ahead, σ.depth⟩ := by
  unfold recover Recovery.leave
  cases r.consumesMismatch with
  | false => rfl
  | true => rfl

/-- In front of the symbols, the tokens `ks'` are taken for the tokens `ks`. -/
structure Resembles (d : Dialect) (ss : List Symbol) (ks ks' : List Kind) : Prop where
  noElse : front ks ≠ .kwElse → front ks' ≠ .kwElse
  seen : front ks ∈ starts d [] ss → front ks' = front ks

section

variable {s : Settings} {p : Phrase} {i j n : Nat} {ls ls₁ ls₂ : List Line}

theorem annotate_of_ne (hp : p ≠ .command) (c c' : Kind) (agenda : List Step) :
    annotate p c agenda = annotate p c' agenda := by
  cases p <;> first | rfl | (cases agenda <;> rfl) | exact absurd rfl hp

/-- A walk over an alternative and one over what is behind it make a walk over the phrase: the
check finds out that it should take this alternative. -/
theorem Walk.enter_alternative {b : List Step} {parts : List Symbol} {c : Kind}
    {ks behind : List Kind} {σ : Spot} (rule : parts ∈ productions s.dialect p)
    (room : p.opensLevel → n < s.maxNesting) (hb : front behind ∈ follow s.dialect p)
    (same : p = .command → front ks = c)
    (noElse : p = .elsePart → parts = [] → front behind ≠ .kwElse)
    (inside : Walk s i (annotate p c (parts.map Symbol.step)) ⟨ks, n + p.levels⟩ ls₁
      ⟨behind, n + p.levels⟩) (clean : reports ls₁ = [])
    (later : Walk s j b ⟨behind, n⟩ ls₂ σ) :
    ∃ k, Walk s k ((Symbol.phrase p).step :: b) ⟨ks, n⟩ (ls₁ ++ ls₂) σ := by
  obtain ⟨inner, rfl, derives⟩ := inside.derives (regular_annotate rule c) clean
  rw [form_annotate, Step.form_map_step] at derives
  have steps := expand_eq rule derives hb noElse
  have mark : annotate p (front (inner ++ behind)) (parts.map Symbol.step) =
      annotate p c (parts.map Symbol.step) := by
    by_cases hp : p = .command
    · have first := same hp
      rw [first]
    · exact annotate_of_ne hp _ _ _
  rw [mark] at steps
  rw [← steps] at inside
  exact Walk.enter room inside later

/-- Tokens that resemble others in front of the alternative that is taken do so in front of the
phrase. If the phrase is taken to be empty, what is behind it counts. -/
theorem Resembles.of_alternative {d : Dialect} {parts ss : List Symbol} {next : Kind}
    {ks ks' behind behind' : List Kind}
    (steps : expand d p (front ks) next = annotate p (front ks) (parts.map Symbol.step))
    (inside : Resembles d parts ks ks') (later : Resembles d ss behind behind')
    (empty : expand d p (front ks) next = [] → behind = ks ∧ behind' = ks') :
    Resembles d (.phrase p :: ss) ks ks' := by
  refine ⟨inside.noElse, ?_⟩
  intro hs
  by_cases hf : front ks ∈ first d p
  · have := mem_starts_expand hf next
    rw [steps, form_annotate, Step.form_map_step] at this
    exact inside.seen this
  · rw [starts, List.mem_append] at hs
    have hs := hs.resolve_left hf
    by_cases hp : p.nullable
    · obtain ⟨rfl, rfl⟩ := empty (expand_eq_nil hp hf next)
      rw [if_pos hp] at hs
      exact later.seen hs
    · rw [if_neg hp] at hs
      cases hs

/-- For a repairable fault there is a token that makes up for it: in front of this token, and of
whatever is left behind the fault, the check finds none. -/
theorem Walk.exists_makeUp {σ σ' : Spot} {e : Diagnostic}
    (walk : Walk s i (expand s.dialect p (front σ.ahead) (front σ.ahead.tail)) σ ls σ')
    (fault : Step.fault? (expand s.dialect p (front σ.ahead) (front σ.ahead.tail)) = some e)
    (repairable : ∀ e ∈ reports ls, e.repairable)
    (guard : (Symbol.phrase p).guarded → front σ.ahead ∈ first s.dialect p) :
    traced ls = [] ∧ front σ.ahead ∉ first s.dialect p ∧
      (p = .type ∨ p = .factor) ∧
      ∃ k, k ≠ .kwElse ∧
        (∀ ds ks, Repairs s.recovery σ'.ahead ds ks →
          Repairs s.recovery σ.ahead (reports ls ++ ds) (k :: ks)) ∧
        ∃ parts ∈ productions s.dialect p, ∀ ks n, ∃ j,
          Walk s j (annotate p k (parts.map Symbol.step)) ⟨k :: ks, n⟩ [] ⟨ks, n⟩ := by
  obtain ⟨es, hes⟩ := walk.reports_of_fault fault
  have he : e.repairable := repairable e (by rw [hes]; exact List.mem_cons_self)
  obtain ⟨hf, ⟨rfl, steps⟩ | ⟨rfl, steps⟩⟩ :=
    expand_of_fault fault he guard
  · rw [steps] at walk
    have reported : σ.move s (.report (.expectedType (front σ.ahead))) =
        { lines := [.diagnostic (.expectedType (front σ.ahead))], spot := σ } := rfl
    have left : σ.move s .recover = { spot := σ.recover s.recovery } := rfl
    obtain ⟨_, _, rfl, rfl, leaving⟩ := walk.move reported
    obtain ⟨_, _, rfl, rfl, done⟩ := leaving.move left
    cases done
    rw [Spot.recover_eq]
    have rule : [.token .kwInteger] ∈ productions s.dialect .type := List.mem_cons_self
    refine ⟨rfl, hf, .inl rfl, .kwInteger, by decide, ?_, _, rule, ?_⟩
    · intro ds ks h
      exact .type List.mem_cons_self h
    · intro ks n
      exact ⟨1, .of_move (Spot.move_expect_cons ks n) (.nil _)⟩
  · rw [steps] at walk
    have reported : σ.move s (.report (.expectedFactor (front σ.ahead))) =
        { lines := [.diagnostic (.expectedFactor (front σ.ahead))], spot := σ } := rfl
    have left : σ.move s .skip = { spot := σ.advance } := rfl
    obtain ⟨_, _, rfl, rfl, leaving⟩ := walk.move reported
    obtain ⟨_, _, rfl, rfl, done⟩ := leaving.move left
    cases done
    have rule : [.phrase .variableName] ∈ productions s.dialect .factor := List.mem_cons_self
    refine ⟨rfl, hf, .inr rfl, .identifier, by decide, ?_, _, rule, ?_⟩
    · intro ds ks h
      exact .factor h
    · intro ks n
      exact ⟨2, .cons (.phrase .variableName) (.of_move (Spot.move_expect_cons ks n) (.nil _))⟩

/-- What a walk from `σ` to `σ'` with the lines `ls` leaves behind it may be repaired: then the
tokens of the walk can be repaired as well, so that a walk through them reports nothing. -/
def HasRepair (s : Settings) (a : List Step) (σ σ' : Spot) (ls : List Line) : Prop :=
  ∀ ⦃after rest : List Kind⦄ ⦃ds : List Diagnostic⦄, Followed s.dialect after (Step.form a) →
    Repairs s.recovery σ'.ahead ds rest → front rest ∈ after →
    (front σ'.ahead ≠ .kwElse → front rest ≠ .kwElse) →
      ∃ ks, Repairs s.recovery σ.ahead (reports ls ++ ds) ks ∧
        Resembles s.dialect (Step.form a) σ.ahead ks ∧
          ∃ j, Walk s j a ⟨ks, σ.depth⟩ (traced ls) ⟨rest, σ.depth⟩

namespace HasRepair

variable {a b : List Step} {σ σ' : Spot}

theorem nil (σ : Spot) : HasRepair s [] σ σ [] := by
  intro after rest ds _ repairs _ noElse
  exact ⟨rest, repairs, ⟨noElse, fun h => absurd h List.not_mem_nil⟩, 0, .nil _⟩

theorem mark (t : Trace) (h : HasRepair s b σ σ' ls) :
    HasRepair s (.mark t :: b) σ σ' (.trace t :: ls) := by
  intro after rest ds followed repairs hr noElse
  obtain ⟨ks, repairs', resembles, j, walk⟩ := h followed repairs hr noElse
  exact ⟨ks, repairs', resembles, j + 1, walk.mark t⟩

theorem finish (h : HasRepair s b σ σ' ls) : HasRepair s (.finish :: b) σ σ' ls := by
  intro after rest ds followed repairs hr noElse
  obtain ⟨ks, repairs', resembles, j, walk⟩ := h followed repairs hr noElse
  exact ⟨ks, repairs', resembles, j + 1, .cons .finish walk⟩

/-- A token that is there is kept. -/
theorem expect {k : Kind} (hk : front σ.ahead = k) (k_ne : k ≠ .endOfText)
    (h : HasRepair s b σ.advance σ' ls) : HasRepair s (.expect k :: b) σ σ' ls := by
  intro after rest ds followed repairs hr noElse
  obtain ⟨ks, repairs', -, j, walk⟩ := h followed repairs hr noElse
  have ahead : σ.ahead = k :: σ.advance.ahead := eq_cons_of_front hk k_ne
  refine ⟨k :: ks, ?_, ⟨?_, fun _ => hk.symm⟩, j + 1,
    .of_move (Spot.move_expect_cons ks _) walk⟩
  · rw [ahead]
    exact .keep k repairs'
  · intro no
    rw [hk] at no
    exact no

/-- A token that is not there is put there. -/
theorem missing {k : Kind} (hk : front σ.ahead ≠ k) (k_ne : k ≠ .kwElse)
    (h : HasRepair s b (σ.recover s.recovery) σ' ls) :
    HasRepair s (.expect k :: b) σ σ' (.diagnostic (.expected k (front σ.ahead)) :: ls) := by
  intro after rest ds followed repairs hr noElse
  obtain ⟨ks, repairs', -, j, walk⟩ := h followed repairs hr noElse
  rw [Spot.recover_eq] at repairs' walk
  have unseen : front σ.ahead ∉ starts s.dialect [] (Step.form (.expect k :: b)) := by
    intro h
    exact hk (List.mem_singleton.1 h)
  exact ⟨k :: ks, .token k repairs', ⟨fun _ => k_ne, fun h => absurd h unseen⟩, j + 1,
    .of_move (Spot.move_expect_cons ks _) walk⟩

/-- What comes behind a phrase once it is repaired can follow the phrase. -/
theorem front_mem_follow {after behind rest : List Kind}
    (followed : Followed s.dialect after (.phrase p :: Step.form b)) (hr : front rest ∈ after)
    (walk : Walk s j b ⟨behind, n⟩ (traced ls) ⟨rest, n⟩) (regular : ∀ step ∈ b, step.regular) :
    front behind ∈ follow s.dialect p := by
  obtain ⟨outer, rfl, derives⟩ := walk.derives regular (reports_traced ls)
  exact followed.1 _ (derives.front_mem hr)

/-- A phrase is repaired by repairing the alternative that the check takes. -/
theorem alternative {parts : List Symbol} {behind : List Kind}
    (rule : parts ∈ productions s.dialect p)
    (steps : expand s.dialect p (front σ.ahead) (front σ.ahead.tail) =
      annotate p (front σ.ahead) (parts.map Symbol.step))
    (room : p.opensLevel → σ.depth < s.maxNesting) (regular : ∀ step ∈ b, step.regular)
    (inner : Passage s (annotate p (front σ.ahead) (parts.map Symbol.step))
      ⟨σ.ahead, σ.depth + p.levels⟩ ls₁ ⟨behind, σ.depth + p.levels⟩)
    (inside : HasRepair s (annotate p (front σ.ahead) (parts.map Symbol.step))
      ⟨σ.ahead, σ.depth + p.levels⟩ ⟨behind, σ.depth + p.levels⟩ ls₁)
    (later : HasRepair s b ⟨behind, σ.depth⟩ σ' ls₂) :
    HasRepair s ((Symbol.phrase p).step :: b) σ σ' (ls₁ ++ ls₂) := by
  intro after rest ds followed repairs hr noElse
  rw [Step.form_step_cons] at followed ⊢
  obtain ⟨behind', repairs₂, resembles₂, j₂, later'⟩ := later followed.2 repairs hr noElse
  have hb := front_mem_follow followed hr later' regular
  have followed' : Followed s.dialect (follow s.dialect p)
      (Step.form (annotate p (front σ.ahead) (parts.map Symbol.step))) := by
    rw [form_annotate, Step.form_map_step]
    exact followed_parts s.dialect p parts rule
  obtain ⟨ks, repairs₁, resembles₁, j₁, inner'⟩ := inside followed' repairs₂ hb resembles₂.noElse
  rw [form_annotate, Step.form_map_step] at resembles₁
  have empty (h : expand s.dialect p (front σ.ahead) (front σ.ahead.tail) = []) :
      behind = σ.ahead ∧ behind' = ks := by
    rw [← steps, h] at inner inner'
    exact ⟨congrArg Spot.ahead inner.eq_of_nil, congrArg Spot.ahead inner'.eq_of_nil⟩
  have resembles := Resembles.of_alternative steps resembles₁ resembles₂ empty
  refine ⟨ks, ?_, resembles, ?_⟩
  · rw [reports_append, List.append_assoc]
    exact repairs₁
  rw [traced_append]
  refine Walk.enter_alternative rule room hb ?_ ?_ inner' (reports_traced ls₁) later'
  · -- The trace of a command tells its first token, which must be the same one.
    intro hp
    subst hp
    have none : Step.fault? (expand s.dialect .command (front σ.ahead)
        (front σ.ahead.tail)) = none := by
      rw [steps]
      exact Step.fault?_eq_none (regular_annotate rule _)
    exact resembles.seen (List.mem_append_left _ (mem_first_command none))
  · intro hp hparts
    subst hp hparts
    have absent := front_ne_kwElse rule steps (t := .nil) rfl
    obtain ⟨same, -⟩ := empty steps
    refine resembles₂.noElse ?_
    rw [same]
    exact absent

/-- A fault is repaired by the token that makes up for it. -/
theorem fault {behind : List Kind} {e : Diagnostic}
    (inner : Walk s i (expand s.dialect p (front σ.ahead) (front σ.ahead.tail))
      ⟨σ.ahead, σ.depth + p.levels⟩ ls₁ ⟨behind, σ.depth + p.levels⟩)
    (fault : Step.fault? (expand s.dialect p (front σ.ahead) (front σ.ahead.tail)) = some e)
    (repairable : ∀ e ∈ reports ls₁, e.repairable)
    (guard : (Symbol.phrase p).guarded → front σ.ahead ∈ first s.dialect p)
    (room : p.opensLevel → σ.depth < s.maxNesting) (regular : ∀ step ∈ b, step.regular)
    (later : HasRepair s b ⟨behind, σ.depth⟩ σ' ls₂) :
    HasRepair s ((Symbol.phrase p).step :: b) σ σ' (ls₁ ++ ls₂) := by
  intro after rest ds followed repairs hr noElse
  rw [Step.form_step_cons] at followed ⊢
  obtain ⟨behind', repairs₂, -, j₂, later'⟩ := later followed.2 repairs hr noElse
  have hb := front_mem_follow followed hr later' regular
  obtain ⟨quiet, unseen, hp, k, k_ne, made, parts, rule, madeUp⟩ :=
    Walk.exists_makeUp (σ := ⟨σ.ahead, σ.depth + p.levels⟩) inner fault repairable guard
  obtain ⟨j₁, inner'⟩ := madeUp behind' (σ.depth + p.levels)
  refine ⟨k :: behind', ?_, ⟨fun _ => k_ne, ?_⟩, ?_⟩
  · rw [reports_append, List.append_assoc]
    exact made _ _ repairs₂
  · intro hs
    have nonempty : p.nullable = false := by rcases hp with rfl | rfl <;> rfl
    rw [starts, nonempty, List.mem_append] at hs
    rcases hs with hs | hs
    · exact absurd hs unseen
    · cases hs
  · rw [traced_append, quiet]
    refine Walk.enter_alternative rule room hb ?_ ?_ inner' rfl later'
    · intro hc
      subst hc
      rcases hp with hp | hp <;> cases hp
    · intro hc
      subst hc
      rcases hp with hp | hp <;> cases hp

end HasRepair

end

/-- **Repair.** What is passed with repairable reports can be repaired. -/
theorem Passage.hasRepair {s : Settings} {a : List Step} {σ σ' : Spot} {ls : List Line}
    (h : Passage s a σ ls σ') (entered : Entered s.dialect (front σ.ahead) (Step.form a))
    (repairable : ∀ e ∈ reports ls, e.repairable) : HasRepair s a σ σ' ls := by
  induction h with
  | nil σ => exact .nil σ
  | mark t _ ih => exact .mark t (ih entered repairable)
  | finish _ ih => exact .finish (ih entered repairable)
  | expect k_ne here _ ih => exact .expect here k_ne (ih entered.tail repairable)
  | @missing k _ _ _ _ _ absent _ ih =>
    have k_ne : k ≠ .kwElse := by
      intro he
      subst he
      exact absent (List.mem_singleton.1 (entered.1 rfl))
    exact .missing absent k_ne (ih entered.tail (List.forall_mem_cons.1 repairable).2)
  | refused =>
    have := repairable _ List.mem_cons_self
    cases this
  | @alternative p parts b σ σ' behind _ _ rule room steps inside later ihi ihl =>
    rw [Step.form_step_cons] at entered
    rw [reports_append, List.forall_mem_append] at repairable
    have entered' := entered_expand s.dialect p (front σ.ahead) (front σ.ahead.tail)
    rw [steps] at entered'
    exact .alternative rule steps room later.regular inside (ihi entered' repairable.1)
      (ihl entered.tail repairable.2)
  | @fault p e b i σ σ' behind _ _ room fault inside later ih =>
    rw [Step.form_step_cons] at entered
    rw [reports_append, List.forall_mem_append] at repairable
    have guard (hg : (Symbol.phrase p).guarded) : front σ.ahead ∈ first s.dialect p := by
      have := entered.1 hg
      simpa [starts] using this
    exact .fault inside fault repairable.1 guard room later.regular (ih entered.tail repairable.2)

/-! ## Whole programs -/

/-- A text whose diagnostics are repairable can be repaired, under either policy. -/
theorem exists_repair {text : String} {s : Settings}
    (repairable : ∀ e ∈ (check text s).diagnostics, e.repairable) :
    ∃ ks, Repairs s.recovery (kinds text s.dialect) (check text s).diagnostics ks ∧
      ∀ text', kinds text' s.dialect = ks →
        (check text' s).isClean ∧ (check text' s).lines = traced (check text s).lines := by
  obtain ⟨i, σ, walk⟩ := exists_walk_check text s
  have regular : ∀ step ∈ [Step.phrase .program], step.regular := by decide
  have entered : Entered s.dialect (front (kinds text s.dialect)) [.phrase .program] :=
    ⟨nofun, nofun⟩
  obtain ⟨ks, repairs, -, j, repaired⟩ := (walk.passage regular).hasRepair entered repairable
    followed_program (.refl s.recovery σ.ahead) (Kind.mem_all _) id
  rw [List.append_nil] at repairs
  refine ⟨ks, repairs, ?_⟩
  intro text' same
  subst same
  have lines := repaired.lines_check
  refine ⟨?_, lines⟩
  rw [isClean_iff_reports, lines, reports_traced]

/-- **Insertion acts as if the missing tokens had been there.** If each diagnostic is about a
missing token or type, or about something that is no factor, put these tokens in front of the ones
that were found, and a name in the stead of what is no factor. Then the check finds nothing wrong
and leaves the traces that it left before. -/
theorem exists_repair_of_insert {text : String} {s : Settings} (policy : s.recovery = .insert)
    (repairable : ∀ e ∈ (check text s).diagnostics, e.repairable) :
    ∃ ks, Repairs .insert (kinds text s.dialect) (check text s).diagnostics ks ∧
      ∀ text', kinds text' s.dialect = ks →
        (check text' s).isClean ∧ (check text' s).lines = traced (check text s).lines := by
  rw [← policy]
  exact exists_repair repairable

/-- Two tokens are missing before the same one, a semicolon and a name, and a factor is wrong. -/
theorem exists_repair_of_insert_three :
    ∃ ks, Repairs .insert (kinds "program begin x := then end." .standard)
        [.expected .identifier .kwBegin, .expected .semicolon .kwBegin, .expectedFactor .kwThen]
        ks ∧
      ∀ text', kinds text' .standard = ks →
        (check text' ⟨.standard, .insert, 9⟩).isClean ∧
          (check text' ⟨.standard, .insert, 9⟩).lines =
            traced (check "program begin x := then end." ⟨.standard, .insert, 9⟩).lines :=
  have found : (check "program begin x := then end." ⟨.standard, .insert, 9⟩).diagnostics =
      [.expected .identifier .kwBegin, .expected .semicolon .kwBegin, .expectedFactor .kwThen] := by
    decide +kernel
  found ▸ exists_repair_of_insert rfl (by rw [found]; decide)

end MiniPascal
