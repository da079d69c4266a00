import MiniPascal.Proofs.Concatenation
import MiniPascal.Proofs.KindCheck

/-!
# Comments are blanks

The scanner skips comments where it comes by them. They might as well be taken out of the text
beforehand: `blankComments` reads a text once, by its braces alone, and puts a space for every
comment. It knows nothing of tokens, so it matters that no token has a brace in it
(`Piece.brace_not_mem_of_gap`) and that none goes further in front of a space than in front of a
comment (`noFurther_blankComments`).

**Theorem (`tokens_blankComments`).** A text with comments and the same text with spaces for them
have the same tokens.

So they have the same transcripts as well (`tokenize_blankComments`).
-/

namespace MiniPascal

namespace Lexis

/-- The text with a space for each comment. A comment goes from a brace through the next one that
closes it, or else to the end of the text. -/
def blankComments : List Char → List Char
  | [] => []
  | c :: more =>
    if c = '{' then ' ' :: blankComments ((more.dropWhile (· != '}')).drop 1)
    else c :: blankComments more
termination_by cs => cs.length
decreasing_by
  · have := (List.dropWhile_suffix (l := more) (· != '}')).length_le
    simp only [List.length_drop, List.length_cons]
    omega
  · simp

section

variable {d : Dialect} {piece rest : List Char} {c : Char}

@[simp] theorem blankComments_nil : blankComments [] = [] := by rw [blankComments]

@[simp] theorem blankComments_brace (more : List Char) :
    blankComments ('{' :: more) =
      ' ' :: blankComments ((more.dropWhile (· != '}')).drop 1) := by
  rw [blankComments, if_pos rfl]

theorem blankComments_cons (hc : c ≠ '{') (more : List Char) :
    blankComments (c :: more) = c :: blankComments more := by
  rw [blankComments, if_neg hc]

theorem blankComments_append (h : '{' ∉ piece) (rest : List Char) :
    blankComments (piece ++ rest) = piece ++ blankComments rest := by
  induction piece with
  | nil => rfl
  | cons c piece ih =>
    rw [List.mem_cons, not_or] at h
    rw [List.cons_append, blankComments_cons (Ne.symm h.1), ih h.2, List.cons_append]

/-- What is found behind a gap is the same, but for the comments that come later. -/
theorem dropGap_blankComments (has : d.hasComments) (cs : List Char) :
    dropGap d false (blankComments cs) = blankComments (dropGap d false cs) := by
  fun_induction blankComments cs with
  | case1 => exact blankComments_nil.symm
  | case2 more ih =>
    rw [dropGap_brace has, dropGap_true, ← ih]
    rfl
  | case3 c more hc ih =>
    by_cases blank : isBlank c
    · simpa [dropGap, blank] using ih
    · simp [dropGap, blank, hc, blankComments_cons]

/-- The first character is a space, or it is that of the text. -/
theorem cons_eq_blankComments {more : List Char} (h : blankComments rest = c :: more) :
    c = ' ' ∨ ∃ more', rest = c :: more' ∧ blankComments more' = more := by
  cases rest with
  | nil =>
    rw [blankComments_nil] at h
    cases h
  | cons c' more' =>
    by_cases hc : c' = '{'
    · rw [hc, blankComments_brace] at h
      exact .inl (List.cons.inj h).1.symm
    · rw [blankComments_cons hc] at h
      obtain ⟨rfl, same⟩ := List.cons.inj h
      exact .inr ⟨more', rfl, same⟩

/-- No piece goes further in front of a space than in front of the comment it stands for. -/
theorem noFurther_blankComments (rest : List Char) : NoFurther rest (blankComments rest) where
  head := by
    intro c hc
    obtain ⟨more, starts⟩ := List.head?_eq_some_iff.1 hc
    rcases cons_eq_blankComments starts with rfl | ⟨more', rfl, -⟩
    · exact .inr (by decide)
    · exact .inl rfl
  fraction := by
    rintro ⟨c, more, starts, digit⟩
    rcases cons_eq_blankComments starts with no | ⟨more', rfl, behind⟩
    · exact absurd no (by decide)
    rcases cons_eq_blankComments behind with rfl | ⟨more', rfl, -⟩
    · exact absurd digit (by decide)
    · exact ⟨c, more', rfl, digit⟩

/-- **Comments are blanks.** -/
theorem tokens_blankComments (has : d.hasComments) (cs : List Char) :
    tokens d (blankComments cs) = tokens d cs := by
  induction hn : cs.length using Nat.strongRecOn generalizing cs with
  | _ n ih =>
  rcases scan?_cases d cs with ⟨gap, none⟩ | ⟨t, rest, whole, gap, piece, some⟩
  · have skipped : dropGap d false cs = [] := by simpa using gap.dropGap_eq
    refine tokens_congr ?_
    rw [dropGap_blankComments has, skipped, blankComments_nil]
  · have shorter : rest.length < n := hn ▸ (scan?_suffix some).2
    have skipped : dropGap d false cs = t.piece ++ rest := by rw [← whole, gap.dropGap_eq]
    have behind : dropGap d false (blankComments cs) = t.piece ++ blankComments rest := by
      rw [dropGap_blankComments has, skipped,
        blankComments_append (piece.brace_not_mem_of_gap skipped has)]
    have found := scan?_of_piece behind (piece.transfer (noFurther_blankComments rest))
    rw [tokens_of_some found, tokens_of_some some, ih _ shorter rest rfl]
    rfl

end

end Lexis

/-- The text with a space for each comment. -/
def blankComments (text : String) : String := String.ofList (Lexis.blankComments text.toList)

/-- **A text may be rid of its comments beforehand.** With a space for each comment it has the same
tokens, and the same transcript under all settings of the dialect that has comments. -/
theorem tokenize_blankComments (text : String) :
    tokenize text .extended = tokenize (blankComments text) .extended ∧
      ∀ recovery maxNesting, check text ⟨.extended, recovery, maxNesting⟩ =
        check (blankComments text) ⟨.extended, recovery, maxNesting⟩ := by
  have same : tokens .extended (blankComments text).toList = tokens .extended text.toList := by
    rw [blankComments, String.toList_ofList]
    exact Lexis.tokens_blankComments rfl text.toList
  constructor
  · rw [tokenize, tokenize, same]
  · intro recovery maxNesting
    rw [check_eq_checkKinds, check_eq_checkKinds, kinds, kinds, same]

/-- A comment keeps a number, an assignment sign and a word apart, and one that is not closed hides
what is behind it. -/
example : (blankComments "1\x7ba\x7d.5:\x7b\x7b\x7d=be\x7bb\x7dgin\x7d\x7b end.").toList =
    "1 .5: =be gin\x7d ".toList := by
  decide +kernel

end MiniPascal
