import MiniPascal.Proofs.Walk

/-!
# Which token a line is about

A diagnostic tells the kind of a token that was found, and so does the trace of a command. The lines
of a check can be laid along the tokens of its text, so that each line stands at a token of the kind
that it tells and none stands in front of an earlier one.

* `Attributed` — a place among the tokens for every line.
* `Placing` — the same, built up from the last line to the first.
* `Step.Apt` — the invariant of agendas. What tells of a token waits right in front of it: the
  reports, the trace of a command, and the phrases that are checked only if their first token is
  there. A report is followed by a step that consumes the token, unless it is the last step or the
  text is at its end.

**Theorem (`Walk.exists_placing`).** Each line of a walk has the place where the walk stood when it
left the line. Under the `swallow` policy a diagnostic consumes the token that it is about.

For whole programs this is `exists_attributed`.
-/

namespace MiniPascal

open Grammar

/-! ## Places -/

/-- The kind of the token that a line is about. -/
def Line.subject? : Line → Option Kind
  | trace (.command k) => some k
  | trace _ => none
  | diagnostic e => e.found?

/-- The first place where the next line may stand, if a line stands at the place `i` of `n`. -/
def Line.placeBehind (r : Recovery) (n i : Nat) : Line → Nat
  | trace _ => i
  | diagnostic _ => if r.consumesMismatch then min (i + 1) n else i

/-- The lines have places among the tokens `ks`, from the place `low` on. The end of the tokens is a
place as well. -/
def Placing (ks : List Kind) (r : Recovery) : Nat → List (Line × Nat) → Prop
  | _, [] => True
  | low, (l, i) :: placed =>
    low ≤ i ∧ i ≤ ks.length ∧ (∀ k ∈ l.subject?, (ks ++ [.endOfText])[i]? = some k) ∧
      Placing ks r (l.placeBehind r ks.length i) placed

namespace Placing

variable {ks : List Kind} {r : Recovery} {low low' : Nat} {placed : List (Line × Nat)}

theorem mono (le : low' ≤ low) (h : Placing ks r low placed) : Placing ks r low' placed := by
  cases placed with
  | nil => trivial
  | cons a placed => exact ⟨Nat.le_trans le h.1, h.2⟩

theorem le_placeBehind {i n : Nat} (l : Line) (r : Recovery) (inside : i ≤ n) :
    i ≤ l.placeBehind r n i := by
  cases l with
  | trace t => exact Nat.le_refl i
  | diagnostic e =>
    simp only [Line.placeBehind]
    split <;> omega

theorem low_le (h : Placing ks r low placed) : ∀ a ∈ placed, low ≤ a.2 := by
  induction placed generalizing low with
  | nil => exact List.forall_mem_nil _
  | cons a placed ih =>
    obtain ⟨here, inside, -, later⟩ := h
    refine List.forall_mem_cons.2 ⟨here, ?_⟩
    intro b hb
    have := ih later b hb
    have := le_placeBehind a.1 r inside
    omega

/-- No line stands in front of an earlier one. -/
theorem sorted (h : Placing ks r low placed) : placed.Pairwise fun a b => a.2 ≤ b.2 := by
  induction placed generalizing low with
  | nil => exact .nil
  | cons a placed ih =>
    obtain ⟨-, inside, -, later⟩ := h
    refine .cons ?_ (ih later)
    intro b hb
    exact Nat.le_trans (le_placeBehind a.1 r inside) (later.low_le b hb)

/-- Where diagnostics consume their tokens, no token has two of them. -/
theorem increasing (h : Placing ks .swallow low placed) :
    (placed.filter fun a => a.1.diagnostic?.isSome).Pairwise fun a b =>
      a.2 < ks.length → a.2 < b.2 := by
  induction placed generalizing low with
  | nil => exact .nil
  | cons a placed ih =>
    obtain ⟨l, i⟩ := a
    obtain ⟨-, -, -, later⟩ := h
    cases l with
    | trace t => exact ih later
    | diagnostic e =>
      refine .cons ?_ (ih later)
      intro b hb inside
      have behind : min (i + 1) ks.length ≤ b.2 := later.low_le b (List.mem_filter.1 hb).1
      show i < b.2
      change i < ks.length at inside
      omega

theorem forall_mem (h : Placing ks r low placed) :
    ∀ a ∈ placed, a.2 ≤ ks.length ∧ ∀ k ∈ a.1.subject?, (ks ++ [.endOfText])[a.2]? = some k := by
  induction placed generalizing low with
  | nil => exact List.forall_mem_nil _
  | cons a placed ih =>
    obtain ⟨-, inside, subject, later⟩ := h
    exact List.forall_mem_cons.2 ⟨⟨inside, subject⟩, ih later⟩

end Placing

/-! ## Where a walk stands -/

namespace Spot

variable {ks : List Kind} {σ : Spot}

/-- The place of the current token. -/
def place (ks : List Kind) (σ : Spot) : Nat := ks.length - σ.ahead.length

theorem place_le (ks : List Kind) (σ : Spot) : σ.place ks ≤ ks.length := Nat.sub_le _ _

theorem kind_place (h : σ.ahead <:+ ks) :
    (ks ++ [.endOfText])[σ.place ks]? = some (front σ.ahead) := by
  obtain ⟨read, rfl⟩ := h
  rw [place, List.length_append, Nat.add_sub_cancel, List.append_assoc,
    List.getElem?_append_right (Nat.le_refl _), Nat.sub_self]
  cases σ.ahead <;> rfl

theorem advance_suffix (h : σ.ahead <:+ ks) : σ.advance.ahead <:+ ks :=
  (List.tail_suffix σ.ahead).trans h

theorem recover_suffix (h : σ.ahead <:+ ks) (r : Recovery) : (σ.recover r).ahead <:+ ks := by
  unfold recover
  split
  · exact advance_suffix h
  · exact h

theorem place_advance (h : σ.ahead <:+ ks) :
    σ.advance.place ks = min (σ.place ks + 1) ks.length := by
  have := h.length_le
  simp only [place, advance, List.length_tail]
  omega

theorem place_le_advance (h : σ.ahead <:+ ks) : σ.place ks ≤ σ.advance.place ks := by
  have := σ.place_le ks
  rw [place_advance h]
  omega

/-- A diagnostic about the current token consumes it as the policy does. -/
theorem placeBehind_eq (h : σ.ahead <:+ ks) (r : Recovery) (e : Diagnostic) :
    (Line.diagnostic e).placeBehind r ks.length (σ.place ks) = (σ.recover r).place ks := by
  rw [Line.placeBehind, recover]
  split
  · rw [place_advance h]
  · rfl

theorem placeBehind_le_advance (h : σ.ahead <:+ ks) (r : Recovery) (e : Diagnostic) :
    (Line.diagnostic e).placeBehind r ks.length (σ.place ks) ≤ σ.advance.place ks := by
  have := place_le_advance h
  rw [placeBehind_eq h, recover]
  split
  · exact Nat.le_refl _
  · exact this

end Spot

/-! ## Reports and what they are about -/

/-- The phrase may be checked in front of a token of the kind `c`. Some phrases are checked only
where their first token has been seen, and a program only by itself. -/
def Phrase.Seen (c : Kind) : Phrase → Prop
  | program => False
  | procedureCall => c = .identifier
  | conditional => c = .kwIf
  | repetition => c = .kwWhile
  | _ => True

namespace Step

/-- The agenda goes on behind a report, in front of a token of the kind `c`: it consumes the token,
or there is nothing more to be consumed or to be done. -/
def Settles (c : Kind) (rest : List Step) : Prop :=
  rest = [] ∨ c = .endOfText ∨ rest.head? = some .skip ∨ rest.head? = some .recover

/-- In front of a token of the kind `c`, what the steps tell of it is true. What they tell of later
tokens is true whatever these are. -/
def Apt (c : Kind) : List Step → Prop
  | [] => True
  | .mark (.command k) :: rest => k = c ∧ Apt c rest
  | .mark _ :: rest | .close :: rest | .finish :: rest => Apt c rest
  | .report e :: rest => (∀ k ∈ e.found?, k = c) ∧ Settles c rest ∧ Apt c rest
  | .phrase .program :: rest => rest = []
  | .phrase p :: rest | .level p :: rest => p.Seen c ∧ ∀ c', Apt c' rest
  | .expect _ :: rest | .skip :: rest | .recover :: rest => ∀ c', Apt c' rest

variable {c : Kind} {p : Phrase} {rest : List Step}

theorem apt_phrase (h : p ≠ .program) :
    Apt c (.phrase p :: rest) ↔ p.Seen c ∧ ∀ c', Apt c' rest := by
  cases p <;> first | exact Iff.rfl | exact absurd rfl h

theorem apt_level (seen : p.Seen c) (apt : ∀ c', Apt c' rest) :
    Apt c (.phrase p :: .close :: rest) := by
  refine (apt_phrase ?_).2 ⟨seen, apt⟩
  rintro rfl
  exact seen

end Step

/-- What the steps for a phrase tell is true. -/
theorem Grammar.apt_expand (d : Dialect) {p : Phrase} {c : Kind} {rest : List Step} (next : Kind)
    (h : Step.Apt c (.phrase p :: rest)) : Step.Apt c (expand d p c next ++ rest) := by
  by_cases program : p = .program
  · subst program
    obtain rfl : rest = [] := h
    simp only [expand]
    split <;> simp [Step.Apt, Step.Settles, Phrase.Seen, Diagnostic.found?]
  · obtain ⟨seen, apt⟩ := (Step.apt_phrase program).1 h
    cases p <;> simp only [expand, commandSteps, factorSteps] <;> (repeat' split) <;>
      simp_all [Step.Apt, Step.Settles, Phrase.Seen, Diagnostic.found?]

/-! ## The places of a walk -/

section

variable {ks : List Kind} {σ σ' : Spot}

namespace Spot

/-- Where the next line may come from: behind the token that the agenda consumes whatever it is, and
from nowhere before the end of the text if there is nothing more to be done. -/
def behind (r : Recovery) (σ : Spot) : List Step → Spot
  | [] => { σ with ahead := [] }
  | .skip :: _ => σ.advance
  | .recover :: _ => σ.recover r
  | _ => σ

theorem place_le_recover (h : σ.ahead <:+ ks) (r : Recovery) :
    σ.place ks ≤ (σ.recover r).place ks := by
  unfold recover
  split
  · exact place_le_advance h
  · exact Nat.le_refl _

theorem place_le_behind (h : σ.ahead <:+ ks) (r : Recovery) (a : List Step) :
    σ.place ks ≤ (σ.behind r a).place ks := by
  unfold behind
  split
  · exact σ.place_le ks
  · exact place_le_advance h
  · exact place_le_recover h r
  · exact Nat.le_refl _

/-- At the end of a text nothing is consumed. -/
theorem place_of_endOfText (h : σ.ahead <:+ ks) (noEnd : .endOfText ∉ ks)
    (here : front σ.ahead = .endOfText) : σ.place ks = ks.length := by
  cases ahead : σ.ahead with
  | nil => simp [place, ahead]
  | cons k more =>
    rw [ahead] at h here
    exact absurd (h.subset (List.mem_cons.2 (.inl here.symm))) noEnd

/-- What a diagnostic consumes is consumed behind its report. -/
theorem placeBehind_le_behind (h : σ.ahead <:+ ks) (noEnd : .endOfText ∉ ks) (r : Recovery)
    (e : Diagnostic) {rest : List Step} (settles : Step.Settles (front σ.ahead) rest) :
    (Line.diagnostic e).placeBehind r ks.length (σ.place ks) ≤ (σ.behind r rest).place ks := by
  rcases settles with rfl | here | head | head
  · rw [placeBehind_eq h]
    exact (σ.recover r).place_le ks
  · have atEnd := place_of_endOfText h noEnd here
    have := place_le_behind h r rest
    simp only [Line.placeBehind]
    split <;> omega
  · obtain ⟨rest, rfl⟩ := List.head?_eq_some_iff.1 head
    exact placeBehind_le_advance h r e
  · obtain ⟨rest, rfl⟩ := List.head?_eq_some_iff.1 head
    exact Nat.le_of_eq (placeBehind_eq h r e)

end Spot

/-- A line that is left where the walk stands, with the lines behind it. -/
theorem Placing.cons {r : Recovery} {low : Nat} {l : Line} {placed : List (Line × Nat)}
    (suffix : σ.ahead <:+ ks) (subject : ∀ k ∈ l.subject?, k = front σ.ahead)
    (le : l.placeBehind r ks.length (σ.place ks) ≤ low) (h : Placing ks r low placed) :
    Placing ks r (σ.place ks) ((l, σ.place ks) :: placed) := by
  refine ⟨Nat.le_refl _, σ.place_le ks, ?_, h.mono le⟩
  intro k hk
  rw [Spot.kind_place suffix, subject k hk]

/-- **Each line has its place.** -/
theorem Walk.exists_placing {s : Settings} {i : Nat} {a : List Step} {ls : List Line}
    (walk : Walk s i a σ ls σ') (suffix : σ.ahead <:+ ks) (noEnd : .endOfText ∉ ks)
    (apt : Step.Apt (front σ.ahead) a) :
    ∃ placed, placed.map Prod.fst = ls ∧
      Placing ks s.recovery ((σ.behind s.recovery a).place ks) placed := by
  induction walk with
  | nil => exact ⟨[], rfl, trivial⟩
  | @cons step i rest σ _ ls later ih =>
    cases step with
    | expect k =>
      by_cases hk : front σ.ahead = k
      · rw [Spot.move_expect hk] at ih ⊢
        obtain ⟨placed, rfl, h⟩ := ih (Spot.advance_suffix suffix) (apt _)
        have le := Spot.place_le_behind (Spot.advance_suffix suffix) s.recovery rest
        exact ⟨placed, rfl, h.mono (Nat.le_trans (Spot.place_le_advance suffix) le)⟩
      · rw [Spot.move_expect_of_ne hk] at ih ⊢
        obtain ⟨placed, rfl, h⟩ := ih (Spot.recover_suffix suffix _) (apt _)
        have le := Spot.place_le_behind (Spot.recover_suffix suffix s.recovery) s.recovery rest
        rw [← Spot.placeBehind_eq suffix s.recovery (.expected k (front σ.ahead))] at le
        refine ⟨_ :: placed, rfl, .cons suffix ?_ le h⟩
        intro k' hk'
        exact (Option.some.inj hk').symm
    | mark t =>
      obtain ⟨placed, rfl, h⟩ := ih suffix (by cases t <;> first | exact apt | exact apt.2)
      refine ⟨_ :: placed, rfl, .cons suffix ?_ (Spot.place_le_behind suffix s.recovery rest) h⟩
      intro k hk
      cases t with
      | command k' =>
        obtain rfl := Option.some.inj hk
        exact apt.1
      | _ => cases hk
    | report e =>
      obtain ⟨found, settles, apt⟩ := apt
      obtain ⟨placed, rfl, h⟩ := ih suffix apt
      have le := Spot.placeBehind_le_behind suffix noEnd s.recovery e settles
      have subject : ∀ k ∈ (Line.diagnostic e).subject?, k = front σ.ahead := found
      exact ⟨_ :: placed, rfl, .cons suffix subject le h⟩
    | skip =>
      obtain ⟨placed, rfl, h⟩ := ih (Spot.advance_suffix suffix) (apt _)
      exact ⟨placed, rfl, h.mono (Spot.place_le_behind (Spot.advance_suffix suffix) _ rest)⟩
    | recover =>
      obtain ⟨placed, rfl, h⟩ := ih (Spot.recover_suffix suffix _) (apt _)
      exact ⟨placed, rfl, h.mono (Spot.place_le_behind (Spot.recover_suffix suffix _) _ rest)⟩
    | phrase p =>
      obtain ⟨placed, rfl, h⟩ := ih suffix (apt_expand s.dialect _ apt)
      exact ⟨placed, rfl, h.mono (Spot.place_le_behind suffix s.recovery _)⟩
    | level p =>
      obtain ⟨seen, apt⟩ := apt
      by_cases room : σ.depth < s.maxNesting
      · rw [Spot.move_level p room] at ih ⊢
        obtain ⟨placed, rfl, h⟩ := ih suffix (Step.apt_level seen apt)
        exact ⟨placed, rfl, h⟩
      · rw [Spot.move_level_of_not p room] at ih ⊢
        obtain ⟨placed, rfl, h⟩ := ih (Spot.advance_suffix suffix) (apt _)
        have le := Nat.le_trans
          (Spot.placeBehind_le_advance suffix s.recovery (.nestingTooDeep s.maxNesting))
          (Spot.place_le_behind (Spot.advance_suffix suffix) s.recovery rest)
        exact ⟨_ :: placed, rfl, .cons suffix nofun le h⟩
    | close =>
      obtain ⟨placed, rfl, h⟩ := ih suffix apt
      have closed : ({ σ with depth := σ.depth - 1 } : Spot).ahead <:+ ks := suffix
      exact ⟨placed, rfl, h.mono (Spot.place_le_behind closed s.recovery rest)⟩
    | finish =>
      obtain ⟨placed, rfl, h⟩ := ih suffix apt
      exact ⟨placed, rfl, h.mono (Spot.place_le_behind suffix s.recovery rest)⟩

end

/-! ## Whole programs -/

/-- Each line of a check is placed at a token of its text, or at the end of the text. -/
structure Attributed (text : String) (s : Settings) (placed : List (Line × Nat)) : Prop where
  lines : placed.map Prod.fst = (check text s).lines
  /-- The places follow the order of the transcript. -/
  sorted : placed.Pairwise fun a b => a.2 ≤ b.2
  inside : ∀ a ∈ placed, a.2 ≤ (tokens s.dialect text.toList).length
  /-- The kind that a line tells is the kind of the token at its place. -/
  subject : ∀ a ∈ placed, ∀ k ∈ a.1.subject?,
    ((tokenize text s.dialect).map Token.kind)[a.2]? = some k
  /-- Where what does not fit is swallowed, no token has two diagnostics. -/
  increasing : s.recovery = .swallow →
    (placed.filter fun a => a.1.diagnostic?.isSome).Pairwise fun a b =>
      a.2 < (tokens s.dialect text.toList).length → a.2 < b.2

/-- **Checks tell of the tokens in their order.** There are places among the tokens for the lines
of a check, in order, so that what a line tells about a token is true of the token at its place; and
under the `swallow` policy the places of the diagnostics increase until the end of the text. -/
theorem exists_attributed (text : String) (s : Settings) :
    ∃ placed, Attributed text s placed := by
  obtain ⟨i, σ, walk⟩ := exists_walk_check text s
  have noEnd := endOfText_not_mem_tokens s.dialect text.toList
  obtain ⟨placed, lines, h⟩ := walk.exists_placing (List.suffix_refl _) noEnd rfl
  have length : (kinds text s.dialect).length = (tokens s.dialect text.toList).length :=
    List.length_map _
  refine ⟨placed, lines, h.sorted, ?_, ?_, ?_⟩
  · intro a ha
    exact length ▸ (h.forall_mem a ha).1
  · intro a ha
    rw [map_kind_tokenize]
    exact (h.forall_mem a ha).2
  · intro policy
    rw [policy] at h
    exact length ▸ h.increasing

end MiniPascal
