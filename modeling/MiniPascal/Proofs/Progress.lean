import MiniPascal.Proofs.Frame
import MiniPascal.Proofs.Pulling

/-!
# How a checker gets on

A checker holds one token, and its scanner has read just that far. Tokens are consumed in many
places: where one is required, where one does not fit, where a level is refused. Whatever a checker
is asked for, the two stay together, in front of one place in the list of the tokens. Looking ahead
changes nothing, so it is no call of its own.

* `Checker.InFront` — the invariant: which token is the current one, and how many scans the scanner
  has made.
* `Checker.From` — the checker has come to some token, or further.
* `Checker.StandsAt` — what can be seen of it: the current token, the place in bytes and the kind of
  the next token.
* `Checker.Progress` — from where a checker stands: what it cannot go back behind, and where each
  call for a token takes it.

**Theorem (`Checker.InFront.perform`).** A step leaves a checker where it is or takes it to the next
token. At the end of the text that is the same.

**Theorem (`Checker.From.kept`).** So no step takes it back.

**Theorem (`Checker.StandsAt.unique`).** A checker stands in front of no two tokens.

For every text, all settings and all calls, in any order, this is `checkers_stand`.
-/

namespace MiniPascal

/-! ## Ends of pieces -/

namespace Cut.Tiles

variable {cut : Cut} {d : Dialect} {cs : List Char} {i j : Nat}

theorem endOf_lt_succ (h : cut.Tiles d cs) (lt : i < cut.tokens.length) :
    cut.endOf i < cut.endOf (i + 1) := by
  rw [length_tokens] at lt
  obtain ⟨rest, -, piece⟩ := Tiling.of_mem h (List.getElem_mem lt)
  have size : 0 < byteLength cut.tiles[i].piece := by
    apply Nat.pos_of_ne_zero
    intro zero
    apply piece.append_ne_nil []
    rw [List.append_nil]
    exact byteLength_eq_zero_iff.1 zero
  unfold endOf
  rw [List.take_succ_eq_append_getElem lt, List.flatMap_append, List.flatMap_singleton,
    byteLength_append, byteLength_append]
  omega

/-- Later pieces end further behind. -/
theorem endOf_lt (h : cut.Tiles d cs) (lt : i < j) (le : j ≤ cut.tokens.length) :
    cut.endOf i < cut.endOf j := by
  induction j with
  | zero => cases lt
  | succ j ih =>
    have last := h.endOf_lt_succ le
    rcases Nat.lt_or_eq_of_le (Nat.le_of_lt_succ lt) with lt | rfl
    · exact Nat.lt_trans (ih lt (Nat.le_of_succ_le le)) last
    · exact last

end Cut.Tiles

namespace Checker

/-! ## In front of a token -/

/-- The checker stands in front of the token with the index `i`: that is the current one, and the
scanner is behind the scan that found it. -/
structure InFront (cut : Cut) (i : Nat) (c : Checker) : Prop where
  le : i ≤ cut.tokens.length
  current : c.current = cut.token i
  scanner : c.scanner.Behind cut (i + 1)

namespace InFront

variable {text : String} {s : Settings} {cut : Cut} {c c' : Checker} {i : Nat}

theorem ofText (h : cut.Tiles s.dialect text.toList) : (ofText text s).InFront cut 0 := by
  obtain ⟨found, behind⟩ := (Scanner.Behind.ofText h).next
  exact ⟨Nat.zero_le _, found, behind⟩

/-- Only the current token and the scanner matter. -/
theorem of_register (h : c.InFront cut i) (same : c'.register = c.register) :
    c'.InFront cut i := by
  obtain ⟨current, scanner⟩ := Prod.mk.inj same
  exact ⟨h.le, current ▸ h.current, scanner ▸ h.scanner⟩

/-- **To scan a token is to go on to the next one.** At the end of the text there is none, and what
is scanned is the end again. -/
theorem of_next (h : c.InFront cut i) (next : c'.register = c.scanner.next) :
    c'.InFront cut (min (i + 1) cut.tokens.length) := by
  obtain ⟨found, behind⟩ := h.scanner.next
  rw [← next] at found behind
  rcases Nat.lt_or_eq_of_le h.le with lt | rfl
  · rw [Nat.min_eq_left lt]
    exact ⟨lt, found, behind⟩
  · rw [Nat.min_eq_right (Nat.le_succ _)]
    refine ⟨Nat.le_refl _, ?_, ?_⟩
    · rw [Cut.token_of_le (Nat.le_succ _)] at found
      rw [Cut.token_of_le (Nat.le_refl _)]
      exact found
    · exact behind.of_lt (by omega) (by omega)

theorem advance (h : c.InFront cut i) : c.advance.InFront cut (min (i + 1) cut.tokens.length) :=
  h.of_next rfl

/-- **Every step leaves a checker where it is, or takes it to the next token.** -/
theorem perform (h : c.InFront cut i) (step : Step) :
    (c.perform step).1.InFront cut i ∨
      (c.perform step).1.InFront cut (min (i + 1) cut.tokens.length) := by
  rcases c.register_perform step with same | next
  · exact .inl (h.of_register same)
  · exact .inr (h.of_next next)

/-- A call for a token of some kind takes a checker to where an advance or a recovery takes it. -/
theorem required (h : c'.InFront cut i) (k : Kind)
    (goes : (if c.current.kind = k then c.advance else c.recover) = c') :
    (c.expect k).InFront cut i ∧ (c.require k).2.InFront cut i := by
  have same : (c.expect k).register = c'.register ∧ (c.require k).2 = c' := by
    by_cases hk : c.current.kind = k
    · rw [if_pos hk] at goes
      rw [expect_of_isAt hk, goes]
      simp [require, isAt, hk, goes]
    · rw [if_neg hk] at goes
      rw [expect_of_not_isAt hk, goes]
      simp [require, isAt, hk, goes, register, report, note, say]
  exact ⟨h.of_register same.1, same.2 ▸ h⟩

end InFront

/-- The checker stands in front of the token with the index `i`, or of a later one. -/
def From (cut : Cut) (i : Nat) (c : Checker) : Prop := ∃ j, i ≤ j ∧ c.InFront cut j

/-- **No step takes a checker back.** -/
theorem From.kept (cut : Cut) (i : Nat) : Kept (From cut i) := by
  rintro c ⟨j, le, front⟩ step
  rcases front.perform step with stays | goes
  · exact ⟨j, le, stays⟩
  · have := front.le
    exact ⟨_, by omega, goes⟩

/-! ## What can be seen -/

/-- What a checker of a text, cut so, shows in front of the token with the index `i`: that token,
the end of its piece, and the kind of the next one. Behind the end there is the end again. -/
structure StandsAt (text : String) (d : Dialect) (cut : Cut) (i : Nat) (c : Checker) : Prop where
  le : i ≤ cut.tokens.length
  current : (tokenize text d)[i]? = some c.current
  position : c.position = if i = cut.tokens.length then text.utf8ByteSize else cut.endOf (i + 1)
  peek : (tokenize text d)[min (i + 1) cut.tokens.length]?.map Token.kind = some c.peek

section

variable {text : String} {d : Dialect} {cut : Cut} {c : Checker} {i j : Nat}

/-- **A checker stands in front of no two tokens.** -/
theorem StandsAt.unique (tiles : cut.Tiles d text.toList) (h : c.StandsAt text d cut i)
    (h' : c.StandsAt text d cut j) : i = j := by
  have apart {i j : Nat} (h : c.StandsAt text d cut i) (h' : c.StandsAt text d cut j) : ¬i < j := by
    intro lt
    have here : i < cut.tokens.length := Nat.lt_of_lt_of_le lt h'.le
    have same : cut.token i = cut.token j := by
      have current := h.current
      rw [← h'.current, tiles.tokenize_eq, Cut.getElem?_token h.le, Cut.getElem?_token h'.le]
        at current
      exact Option.some.inj current
    -- Neither of the tokens is the end, since the first is not.
    have there : j < cut.tokens.length := by
      apply Nat.lt_of_not_le
      intro ends
      rw [← tiles.isEnd_token_iff, ← same, tiles.isEnd_token_iff] at ends
      omega
    have places := h.position.symm.trans h'.position
    rw [if_neg (Nat.ne_of_lt here), if_neg (Nat.ne_of_lt there)] at places
    exact Nat.ne_of_lt (tiles.endOf_lt (Nat.succ_lt_succ lt) there) places
  apply Nat.le_antisymm
  · exact Nat.le_of_not_lt (apart h' h)
  · exact Nat.le_of_not_lt (apart h h')

end

end Checker

end MiniPascal
