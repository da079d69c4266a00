import MiniPascal.Proofs.Tiling

/-!
# Texts put together

Two texts with a blank between them are scanned as one after the other: no rule of the scanner
looks across a blank. What can reach across is a comment that the first text leaves open. It goes
on in the second, up to the next brace that closes it.

* `inComment` — whether a place in a text is inside a comment, by the braces in front of it alone.
* `Blanked` — a text that starts with a blank.

**Theorem (`tokens_append`).** In front of a blank a text is scanned as if it ended there, and what
comes behind it as if it began there, inside a comment if the first text ends inside one.

If the first text leaves no comment open this is `tokenize_append`.
-/

namespace MiniPascal

namespace Lexis

variable {d : Dialect} {inside : Bool} {cs rest after piece : List Char} {k : Kind}

/-! ## Open comments -/

/-- Whether the end of the text is inside a comment, where `inside` tells whether its start is. A
comment goes from a brace up to the next one that closes it, and comments do not nest. -/
def inComment (d : Dialect) (inside : Bool) : List Char → Bool
  | [] => inside
  | c :: more => inComment d (if inside then c != '}' else c == '{' && d.hasComments) more

theorem inComment_append (d : Dialect) (inside : Bool) (cs cs' : List Char) :
    inComment d inside (cs ++ cs') = inComment d (inComment d inside cs) cs' := by
  induction cs generalizing inside with
  | nil => rfl
  | cons c cs ih => exact ih _

/-- Where there are no comments, no place is inside one. -/
theorem inComment_of_not_hasComments (none : ¬d.hasComments) (cs : List Char) :
    inComment d false cs = false := by
  induction cs with
  | nil => rfl
  | cons c cs ih => simpa [inComment, none] using ih

/-- A text without a brace opens no comment. -/
theorem inComment_of_brace_not_mem (h : '{' ∉ cs) : inComment d false cs = false := by
  induction cs with
  | nil => rfl
  | cons c cs ih =>
    rw [List.mem_cons, not_or] at h
    have : (c == '{') = false := by simpa using Ne.symm h.1
    simpa [inComment, this] using ih h.2

theorem ne_brace_of_isBlank {c : Char} (h : isBlank c) : (c == '{') = false := by
  refine beq_false_of_ne ?_
  rintro rfl
  exact absurd h (by decide)

/-- A text that is all gap is passed over, and what is behind it is inside a comment or not. -/
theorem dropGap_append_of_eq_nil (h : dropGap d inside cs = []) (rest : List Char) :
    dropGap d inside (cs ++ rest) = dropGap d (inComment d inside cs) rest := by
  fun_induction dropGap d inside cs with
  | case1 => rfl
  | case2 c more ih => exact ih h
  | case3 inside c more no blank ih =>
    simp [dropGap, inComment, no, blank, ne_brace_of_isBlank blank, ih h]
  | case4 inside c more no blank brace ih => simp [dropGap, inComment, no, blank, brace, ih h]
  | case5 => cases h

/-- What is found behind a gap does not depend on what comes later, and no comment is open there. -/
theorem dropGap_append_of_ne_nil (h : dropGap d inside cs ≠ []) (rest : List Char) :
    dropGap d inside (cs ++ rest) = dropGap d inside cs ++ rest ∧
      inComment d false (dropGap d inside cs) = inComment d inside cs := by
  fun_induction dropGap d inside cs with
  | case1 => exact absurd rfl h
  | case2 c more ih => exact ih h
  | case3 inside c more no blank ih =>
    simpa [dropGap, inComment, no, blank, ne_brace_of_isBlank blank] using ih h
  | case4 inside c more no blank brace ih =>
    simpa [dropGap, inComment, no, blank, brace] using ih h
  | case5 inside c more no blank brace =>
    simp [dropGap, inComment, no, blank, brace]

/-- Behind a gap there is no other. -/
theorem dropGap_dropGap (d : Dialect) (inside : Bool) (cs : List Char) :
    dropGap d false (dropGap d inside cs) = dropGap d inside cs := by
  fun_induction dropGap d inside cs with
  | case1 => rfl
  | case2 c more ih => exact ih
  | case3 inside c more no blank ih => exact ih
  | case4 inside c more no blank brace ih => exact ih
  | case5 inside c more no blank brace => simp [dropGap, blank, brace]

/-- What is found behind a gap opens no comment. -/
theorem not_comment_of_dropGap {c : Char} {more : List Char}
    (h : dropGap d inside cs = c :: more) : ¬(c = '{' ∧ d.hasComments) := by
  fun_induction dropGap d inside cs with
  | case1 => cases h
  | case2 c' more' ih => exact ih h
  | case3 inside c' more' no blank ih => exact ih h
  | case4 inside c' more' no blank brace ih => exact ih h
  | case5 inside c' more' no blank brace =>
    obtain ⟨rfl, rfl⟩ := List.cons.inj h
    simpa using brace

/-! ## Pieces in front of a blank -/

/-- The text starts with a blank. -/
def Blanked (cs : List Char) : Prop := ∃ c more, cs = c :: more ∧ c ∈ blanks

/-- No number goes on behind a blank. -/
theorem StartsFraction.of_append (h : StartsFraction (rest ++ after)) (blanked : Blanked after) :
    StartsFraction rest := by
  obtain ⟨c, more, rfl, hc⟩ := blanked
  obtain ⟨digit, more', whole, isDigit⟩ := h
  match rest, whole with
  | [], whole =>
    obtain rfl := (List.cons.inj whole).1
    exact absurd hc (by decide)
  | [_], whole =>
    obtain ⟨-, whole⟩ := List.cons.inj whole
    obtain rfl := (List.cons.inj whole).1
    have table : blanks.all fun c => !c.isDigit := by decide
    simpa [isDigit] using List.all_eq_true.1 table c hc
  | dot :: c' :: rest, whole =>
    obtain ⟨hd, whole⟩ := List.cons.inj whole
    obtain ⟨rfl, -⟩ := List.cons.inj whole
    exact ⟨c', rest, by rw [hd], isDigit⟩

theorem Blanked.noFurther (blanked : Blanked after) (rest : List Char) :
    NoFurther rest (rest ++ after) where
  head := by
    intro c hc
    cases rest with
    | nil =>
      obtain ⟨c', more, rfl, blank⟩ := blanked
      obtain rfl := Option.some.inj hc
      exact .inr blank
    | cons => exact .inl hc
  fraction := fun fraction => fraction.of_append blanked

/-- **A piece does not reach across a blank.** -/
theorem Piece.append (h : Piece d k piece rest) (blanked : Blanked after) :
    Piece d k piece (rest ++ after) := h.transfer (blanked.noFurther rest)

/-- There is no brace in a piece where braces open comments. -/
theorem Piece.brace_not_mem_of_gap (h : Piece d k piece rest)
    (gap : dropGap d inside cs = piece ++ rest) (has : d.hasComments) : '{' ∉ piece := by
  obtain ⟨c, more, rfl, -⟩ := h.munch_eq
  intro brace
  rcases List.mem_cons.1 brace with rfl | behind
  · exact not_comment_of_dropGap gap ⟨rfl, has⟩
  · exact absurd (h.isInner_of_mem _ behind) (by decide)

/-- A piece leaves no comment open. -/
theorem Piece.inComment_append (h : Piece d k piece rest)
    (gap : dropGap d inside cs = piece ++ rest) :
    inComment d false (piece ++ rest) = inComment d false rest := by
  by_cases has : d.hasComments
  · rw [Lexis.inComment_append, inComment_of_brace_not_mem (h.brace_not_mem_of_gap gap has)]
  · rw [inComment_of_not_hasComments has, inComment_of_not_hasComments has]

end Lexis

open Lexis

/-! ## Tokens -/

section

variable {d : Dialect} {cs cs' rest after : List Char}

/-- What is scanned depends on what is behind the gap. -/
theorem tokens_congr (h : dropGap d false cs = dropGap d false cs') :
    tokens d cs = tokens d cs' := by
  have same : scan? d cs = scan? d cs' := by simp only [scan?, h]
  cases found : scan? d cs with
  | none => rw [tokens_of_none found, tokens_of_none (same.symm.trans found)]
  | some first => rw [tokens_of_some found, tokens_of_some (same.symm.trans found)]

/-- **Scanning distributes over a blank.** In front of a blank a text is scanned as if it ended
there, and then what is left once the comment has been skipped that the text leaves open. -/
theorem tokens_append (d : Dialect) (cs : List Char) (blanked : Blanked after) :
    tokens d (cs ++ after) =
      tokens d cs ++ tokens d (dropGap d (inComment d false cs) after) := by
  induction hn : cs.length using Nat.strongRecOn generalizing cs with
  | _ n ih =>
  rcases scan?_cases d cs with ⟨gap, none⟩ | ⟨t, rest, whole, gap, piece, some⟩
  · have skipped : dropGap d false cs = [] := by simpa using gap.dropGap_eq
    rw [tokens_of_none none, List.nil_append]
    exact tokens_congr ((dropGap_append_of_eq_nil skipped after).trans (dropGap_dropGap ..).symm)
  · have shorter : rest.length < n := hn ▸ (scan?_suffix some).2
    have skipped : dropGap d false cs = t.piece ++ rest := by rw [← whole, gap.dropGap_eq]
    obtain ⟨behind, closed⟩ :=
      dropGap_append_of_ne_nil (skipped ▸ piece.append_ne_nil rest) after
    rw [skipped, List.append_assoc] at behind
    rw [skipped, piece.inComment_append skipped] at closed
    have found := scan?_of_piece behind (piece.append blanked)
    rw [tokens_of_some found, tokens_of_some some, ih _ shorter rest rfl, closed]
    rfl

theorem dropGap_append_of_blanks {w : List Char} (blank : ∀ c ∈ w, c ∈ blanks) (cs : List Char) :
    dropGap d false (w ++ cs) = dropGap d false cs := by
  induction w with
  | nil => rfl
  | cons c w ih =>
    obtain ⟨here, others⟩ := List.forall_mem_cons.1 blank
    exact (Filler.blank here).dropGap_append (w ++ cs) |>.trans (ih others)

/-- Inside a comment everything is skipped up to the brace that closes it. -/
theorem dropGap_true (d : Dialect) (cs : List Char) :
    dropGap d true cs = dropGap d false ((cs.dropWhile (· != '}')).drop 1) := by
  induction cs with
  | nil => rfl
  | cons c cs ih =>
    by_cases hc : c = '}'
    · subst hc
      rfl
    · have : (c != '}') = true := by simpa using hc
      simp [dropGap, this, ih]

end

/-- **Texts put together.** Two texts with blanks between them are scanned one after the other, if
the first does not end inside a comment. -/
theorem tokenize_append {d : Dialect} {a w : String} (b : String) (nonempty : w ≠ "")
    (blank : ∀ c ∈ w.toList, c ∈ blanks) (closed : d.hasComments → ¬inComment d false a.toList) :
    tokenize (a ++ w ++ b) d = (tokenize a d).dropLast ++ tokenize b d := by
  have blanked : Blanked (w.toList ++ b.toList) := by
    cases hw : w.toList with
    | nil => exact absurd (String.toList_eq_nil_iff.1 hw) nonempty
    | cons c more =>
      rw [hw] at blank
      exact ⟨c, more ++ b.toList, rfl, blank c List.mem_cons_self⟩
  have closed' : inComment d false a.toList = false := by
    by_cases has : d.hasComments
    · exact eq_false_of_ne_true (closed has)
    · exact inComment_of_not_hasComments has a.toList
  have skipped : tokens d (dropGap d false (w.toList ++ b.toList)) = tokens d b.toList :=
    tokens_congr ((dropGap_dropGap ..).trans (dropGap_append_of_blanks blank b.toList))
  have split := tokens_append d a.toList blanked
  rw [closed', skipped] at split
  simp only [tokenize, String.toList_append, List.append_assoc, List.dropLast_concat, split]

/-- A blank keeps a digit from being the fraction of a number. -/
theorem tokenize_append_number :
    tokenize ("{ one } 1." ++ "\n" ++ "5") .extended =
      [⟨.integerLiteral, "1"⟩, ⟨.dot, "."⟩, ⟨.integerLiteral, "5"⟩, Token.endOfText] :=
  have blank : ∀ c ∈ "\n".toList, c ∈ blanks := by simp [blanks]
  (tokenize_append "5" (by decide) blank (fun _ => by decide)).trans (by decide +kernel)

end MiniPascal
