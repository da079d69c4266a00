import MiniPascal.Scanner
import Mathlib.Logic.ExistsUnique

/-!
# The tiling of a text

The lexical grammar without an algorithm: what a gap is, what a piece is, and how a text is cut
into gaps and pieces. Scanning finds the one way to cut a text.

* `Gap`, `WholeGap` — blanks and comments, and as many of them as there are.
* `Run` — characters of one class, and behind them none of it.
* `Piece` — what one token is read from, with the kind that the tables give it.
* `Tiling` — a gap and a piece, again and again, and a last gap.

**Theorem (`existsUnique_tiling`).** Every text has exactly one tiling, and its tokens are those of
the pieces.

Existence is what scanning does: `dropGap` skips a whole gap (`exists_wholeGap`) and `munch` cuts
off a piece (`piece_munch`). Uniqueness holds since the text alone tells where a whole gap ends
(`WholeGap.dropGap_eq`), and where a piece ends and of which kind it is (`Piece.munch_eq`).
-/

namespace MiniPascal

namespace Lexis

/-! ## Gaps -/

/-- One blank, or one comment. Comments do not nest. -/
inductive Filler (d : Dialect) : List Char → Prop
  | blank {c : Char} (h : c ∈ blanks) : Filler d [c]
  | comment {inside : List Char} (has : d.hasComments) (h : '}' ∉ inside) :
      Filler d ('{' :: inside ++ ['}'])

/-- The text `g`, in front of the text `rest`, is made of blanks and comments. A comment may be
unclosed where it goes on to the end of the text. -/
inductive Gap (d : Dialect) : List Char → List Char → Prop
  | nil (rest : List Char) : Gap d [] rest
  | cons {f g rest : List Char} (first : Filler d f) (later : Gap d g rest) : Gap d (f ++ g) rest
  | unclosed {inside : List Char} (has : d.hasComments) (h : '}' ∉ inside) :
      Gap d ('{' :: inside) []

/-- A gap that is as long as it can be. -/
structure WholeGap (d : Dialect) (g rest : List Char) : Prop where
  gap : Gap d g rest
  longest : ∀ g' rest', g' ++ rest' = g ++ rest → Gap d g' rest' → g'.length ≤ g.length

section

variable {d : Dialect} {f g rest inside : List Char}

/-- What a comment holds is skipped with it. -/
theorem dropGap_inside (h : '}' ∉ inside) (rest : List Char) :
    dropGap d true (inside ++ rest) = dropGap d true rest := by
  induction inside with
  | nil => rfl
  | cons c inside ih =>
    simp only [List.mem_cons, not_or] at h
    have hc : (c != '}') = true := by simpa using Ne.symm h.1
    simp [dropGap, hc, ih h.2]

/-- A brace opens a comment where the dialect has comments. -/
theorem dropGap_brace (has : d.hasComments) (cs : List Char) :
    dropGap d false ('{' :: cs) = dropGap d true cs := by
  have : isBlank '{' = false := by decide
  simp [dropGap, this, has]

theorem Filler.dropGap_append (h : Filler d f) (cs : List Char) :
    dropGap d false (f ++ cs) = dropGap d false cs := by
  cases h with
  | @blank c h =>
    have : isBlank c = true := by simpa [isBlank] using h
    simp [dropGap, this]
  | comment has h =>
    show dropGap d false ('{' :: (_ ++ ['}']) ++ cs) = _
    simp only [List.cons_append, List.append_assoc, List.nil_append]
    rw [dropGap_brace has, dropGap_inside h]
    rfl

/-- Skipping a gap does not change what is found behind the whole of it. -/
theorem Gap.dropGap_append (h : Gap d g rest) :
    dropGap d false (g ++ rest) = dropGap d false rest := by
  induction h with
  | nil => rfl
  | cons first _ ih => rw [List.append_assoc, first.dropGap_append, ih]
  | unclosed has h =>
    have skipped := dropGap_inside (d := d) h []
    rw [List.append_nil] at skipped ⊢
    rw [dropGap_brace has, skipped]
    rfl

/-- One more character in front of what a comment holds. -/
theorem Gap.cons_comment {c : Char} (hc : c ≠ '}') (h : Gap d ('{' :: g) rest) :
    Gap d ('{' :: c :: g) rest := by
  generalize hg : '{' :: g = g' at h
  cases h with
  | nil => cases hg
  | cons first later =>
    cases first with
    | blank h =>
      obtain ⟨rfl, -⟩ := List.cons.inj hg
      exact absurd h (by decide)
    | @comment inside has h =>
      obtain ⟨-, rfl⟩ := List.cons.inj hg
      have h' : '}' ∉ c :: inside := by simp [h, Ne.symm hc]
      exact .cons (.comment has h') later
  | @unclosed inside has h =>
    obtain ⟨-, rfl⟩ := List.cons.inj hg
    exact .unclosed has (by simp [h, Ne.symm hc])

/-- What is skipped is a gap. Inside a comment its brace is to be added in front. -/
theorem exists_gap (d : Dialect) (inComment : Bool) (cs : List Char)
    (has : inComment → d.hasComments) :
    ∃ g, g ++ dropGap d inComment cs = cs ∧
      Gap d (if inComment then '{' :: g else g) (dropGap d inComment cs) := by
  fun_induction dropGap d inComment cs with
  | case1 inComment =>
    refine ⟨[], rfl, ?_⟩
    cases inComment with
    | false => exact .nil []
    | true => exact .unclosed (has rfl) List.not_mem_nil
  | case2 c more ih =>
    obtain ⟨g, whole, gap⟩ := ih fun _ => has rfl
    refine ⟨c :: g, congrArg (c :: ·) whole, ?_⟩
    by_cases hc : c = '}'
    · subst hc
      exact .cons (.comment (has rfl) List.not_mem_nil) gap
    · have : (c != '}') = true := by simpa using hc
      simp only [this] at gap ⊢
      exact gap.cons_comment hc
  | case3 inComment c more no hc ih =>
    obtain ⟨g, whole, gap⟩ := ih fun h => absurd h Bool.false_ne_true
    refine ⟨c :: g, congrArg (c :: ·) whole, ?_⟩
    rw [if_neg no]
    exact .cons (.blank (by simpa [isBlank] using hc)) gap
  | case4 inComment c more no _ hc ih =>
    simp only [Bool.and_eq_true, beq_iff_eq] at hc
    obtain ⟨rfl, has'⟩ := hc
    obtain ⟨g, whole, gap⟩ := ih fun _ => has'
    refine ⟨'{' :: g, congrArg ('{' :: ·) whole, ?_⟩
    rw [if_neg no]
    exact gap
  | case5 inComment c more no _ _ =>
    refine ⟨[], rfl, ?_⟩
    rw [if_neg no]
    exact .nil _

/-- **What is skipped is a whole gap.** -/
theorem exists_wholeGap (d : Dialect) (cs : List Char) :
    ∃ g, g ++ dropGap d false cs = cs ∧ WholeGap d g (dropGap d false cs) := by
  obtain ⟨g, whole, gap⟩ := exists_gap d false cs fun h => absurd h Bool.false_ne_true
  refine ⟨g, whole, gap, ?_⟩
  intro g' rest' same gap'
  rw [whole] at same
  -- The rest of the text is behind the shorter gap as well.
  have behind : dropGap d false cs <:+ rest' := by
    rw [← same, gap'.dropGap_append]
    exact dropGap_suffix d false rest'
  have shorter := behind.length_le
  have lengths := congrArg List.length (whole.trans same.symm)
  simp only [List.length_append] at lengths
  omega

/-- The text tells where a whole gap ends. -/
theorem WholeGap.dropGap_eq (h : WholeGap d g rest) : dropGap d false (g ++ rest) = rest := by
  obtain ⟨g', whole, h'⟩ := exists_wholeGap d (g ++ rest)
  have le := h.longest _ _ whole h'.gap
  have ge := h'.longest _ _ whole.symm h.gap
  exact (List.append_inj whole (Nat.le_antisymm le ge)).2

/-- A whole gap is determined by the text. -/
theorem WholeGap.unique {g' rest' : List Char} (h : WholeGap d g rest) (h' : WholeGap d g' rest')
    (same : g ++ rest = g' ++ rest') : g = g' ∧ rest = rest' := by
  have behind : rest = rest' := by rw [← h.dropGap_eq, same, h'.dropGap_eq]
  subst behind
  exact ⟨List.append_cancel_right same, rfl⟩

end

/-! ## Pieces -/

/-- A run of characters of one class, which ends where the class ends. -/
structure Run (p : Char → Bool) (run rest : List Char) : Prop where
  all : ∀ c ∈ run, p c
  stop : ∀ c ∈ rest.head?, ¬p c

/-- The characters that are pieces by themselves, with their kinds. -/
def marks : List (Char × Kind) :=
  [('.', .dot), (';', .semicolon), (',', .comma), ('(', .leftParen), (')', .rightParen)]

/-- A dot and a digit: what makes a number go on. -/
def StartsFraction (cs : List Char) : Prop := ∃ c more, cs = '.' :: c :: more ∧ c.isDigit

/-- A piece of the given kind, in front of the text `rest`. The first character tells of which sort
it is. -/
inductive Piece (d : Dialect) : Kind → List Char → List Char → Prop
  | mark {c : Char} {k : Kind} (h : (c, k) ∈ marks) (rest : List Char) : Piece d k [c] rest
  | assign (has : d.hasAssign) (rest : List Char) : Piece d .assign [':', '='] rest
  | colon {rest : List Char} (h : ¬(d.hasAssign ∧ rest.head? = some '=')) :
      Piece d .colon [':'] rest
  | operator {signs rest : List Char} (nonempty : signs ≠ []) (run : Run isOperatorChar signs rest) :
      Piece d (operatorKind d signs) signs rest
  | word {c : Char} {more rest : List Char} (start : isWordStart c)
      (run : Run isWordChar (c :: more) rest) : Piece d (wordKind d (c :: more)) (c :: more) rest
  | integer {digits rest : List Char} (nonempty : digits ≠ []) (run : Run Char.isDigit digits rest)
      (whole : ¬(d.hasRealLiterals ∧ StartsFraction rest)) : Piece d .integerLiteral digits rest
  | real {digits fraction rest : List Char} (has : d.hasRealLiterals) (nonempty : digits ≠ [])
      (all : ∀ c ∈ digits, c.isDigit) (nonempty' : fraction ≠ [])
      (run : Run Char.isDigit fraction rest) :
      Piece d .realLiteral (digits ++ '.' :: fraction) rest
  /-- Any other character is a piece by itself. -/
  | other {c : Char} (mark : ∀ k, (c, k) ∉ marks) (colon : c ≠ ':') (operator : ¬isOperatorChar c)
      (word : ¬isWordStart c) (digit : ¬c.isDigit) (rest : List Char) : Piece d .error [c] rest

section

variable {p : Char → Bool} {run rest : List Char}

theorem run_takeWhile (p : Char → Bool) (cs : List Char) :
    Run p (cs.takeWhile p) (cs.dropWhile p) where
  all := List.all_eq_true.1 List.all_takeWhile
  stop := by
    intro c hc
    have := List.head?_dropWhile_not p cs
    rw [Option.mem_def.1 hc] at this
    simpa using this

theorem Run.takeWhile_append (h : Run p run rest) : (run ++ rest).takeWhile p = run := by
  rw [List.takeWhile_append_of_pos h.all]
  cases rest with
  | nil => simp
  | cons c rest => simp [h.stop c rfl]

theorem Run.dropWhile_append (h : Run p run rest) : (run ++ rest).dropWhile p = rest := by
  rw [List.dropWhile_append_of_pos h.all]
  cases rest with
  | nil => rfl
  | cons c rest => simp [h.stop c rfl]

theorem Run.cons {c : Char} (hc : p c) (h : Run p run rest) : Run p (c :: run) rest :=
  ⟨List.forall_mem_cons.2 ⟨hc, h.all⟩, h.stop⟩

theorem Run.tail {c : Char} (h : Run p (c :: run) rest) : Run p run rest :=
  ⟨fun c' hc' => h.all c' (List.mem_cons_of_mem c hc'), h.stop⟩

end

/-! ### Characters of one class are of no other -/

theorem not_isWordStart_of_isDigit {c : Char} (h : c.isDigit) : ¬isWordStart c := by
  have digit : c.val ≤ 57 := of_decide_eq_true (Bool.and_eq_true_iff.1 h).2
  intro hw
  rcases Bool.or_eq_true_iff.1 hw with letter | underscore
  · have : 65 ≤ c.val := by
      rcases Bool.or_eq_true_iff.1 letter with upper | lower
      · exact (of_decide_eq_true (p := 65 ≤ c.val ∧ c.val ≤ 90) upper).1
      · have lower : (decide (97 ≤ c.val) && decide (c.val ≤ 122)) = true := lower
        have : 97 ≤ c.val := of_decide_eq_true (Bool.and_eq_true_iff.1 lower).1
        grind
    grind
  · rw [beq_iff_eq.1 underscore] at h
    revert h
    decide

theorem not_isOperatorChar_of_isWordStart {c : Char} (h : isWordStart c) : ¬isOperatorChar c := by
  intro hc
  have table : operatorChars.all fun c => !isWordStart c := by decide
  have := List.all_eq_true.1 table c (List.contains_iff_mem.1 hc)
  simp [h] at this

theorem not_isOperatorChar_of_isDigit {c : Char} (h : c.isDigit) : ¬isOperatorChar c := by
  intro hc
  have table : operatorChars.all fun c => !c.isDigit := by decide
  have := List.all_eq_true.1 table c (List.contains_iff_mem.1 hc)
  simp [h] at this

theorem isWordChar_of_isWordStart {c : Char} (h : isWordStart c) : isWordChar c := by
  rw [isWordStart, Bool.or_eq_true] at h
  rw [isWordChar, Bool.or_eq_true]
  exact h.imp_left fun letter => Bool.or_eq_true_iff.2 (.inl letter)

/-! ### A piece is what is cut off -/

section

variable {d : Dialect} {c : Char} {more rest : List Char} {k : Kind}

theorem munch_operator (h : isOperatorChar c) (cs : List Char) :
    munch d c cs = (cs.takeWhile isOperatorChar, cs.dropWhile isOperatorChar) := if_pos h

theorem munch_word (h : isWordStart c) (cs : List Char) :
    munch d c cs = (cs.takeWhile isWordChar, cs.dropWhile isWordChar) := by
  simp [munch, not_isOperatorChar_of_isWordStart h, h]

theorem munch_digit (h : c.isDigit) (cs : List Char) : munch d c cs = munchNumber d cs := by
  simp [munch, not_isOperatorChar_of_isDigit h, not_isWordStart_of_isDigit h, h]

theorem munch_colon (d : Dialect) (cs : List Char) : munch d ':' cs = munchColon d cs := by
  have : isOperatorChar ':' = false ∧ isWordStart ':' = false ∧ ':'.isDigit = false := by decide
  simp [munch, this]

theorem munch_other (colon : c ≠ ':') (operator : ¬isOperatorChar c) (word : ¬isWordStart c)
    (digit : ¬c.isDigit) (cs : List Char) : munch d c cs = ([], cs) := by
  simp [munch, colon, operator, word, digit]

theorem classify_operator (h : isOperatorChar c) :
    classify d (c :: more) = operatorKind d (c :: more) := if_pos h

theorem classify_word (h : isWordStart c) : classify d (c :: more) = wordKind d (c :: more) := by
  simp [classify, not_isOperatorChar_of_isWordStart h, h]

theorem classify_digit (h : c.isDigit) :
    classify d (c :: more) = if more.contains '.' then .realLiteral else .integerLiteral := by
  simp [classify, not_isOperatorChar_of_isDigit h, not_isWordStart_of_isDigit h, h]

theorem classify_of_fraction {fraction : List Char} (hc : c.isDigit) :
    classify d (c :: (more ++ '.' :: fraction)) = .realLiteral := by
  rw [classify_digit hc, if_pos (by simp)]

theorem classify_of_digits (all : ∀ c' ∈ c :: more, c'.isDigit) :
    classify d (c :: more) = .integerLiteral := by
  have noDot : '.' ∉ more := by
    intro h
    exact absurd (all '.' (List.mem_cons_of_mem c h)) (by decide)
  rw [classify_digit (all c List.mem_cons_self), if_neg (by simpa using noDot)]

theorem classify_colon (d : Dialect) (more : List Char) :
    classify d (':' :: more) = if more.isEmpty then .colon else .assign := by
  have : isOperatorChar ':' = false ∧ isWordStart ':' = false ∧ ':'.isDigit = false := by decide
  simp [classify, this]

theorem classify_other (colon : c ≠ ':') (operator : ¬isOperatorChar c) (word : ¬isWordStart c)
    (digit : ¬c.isDigit) : classify d [c] = singleKind c := by
  simp [classify, colon, operator, word, digit]

/-- A mark is of no class, and has its kind by itself. -/
theorem class_of_mark (h : (c, k) ∈ marks) :
    c ≠ ':' ∧ ¬isOperatorChar c ∧ ¬isWordStart c ∧ ¬c.isDigit ∧ singleKind c = k := by
  have table : ∀ m ∈ marks, m.1 ≠ ':' ∧ ¬isOperatorChar m.1 ∧ ¬isWordStart m.1 ∧ ¬m.1.isDigit ∧
      singleKind m.1 = m.2 := by decide
  exact table (c, k) h

theorem mark_or_error (c : Char) :
    (c, singleKind c) ∈ marks ∨ (∀ k, (c, k) ∉ marks) ∧ singleKind c = .error := by
  unfold singleKind
  split
  case h_6 no => right; simp_all [marks]
  all_goals left; decide

theorem munchNumber_integer (run : Run Char.isDigit more rest)
    (whole : ¬(d.hasRealLiterals ∧ StartsFraction rest)) :
    munchNumber d (more ++ rest) = (more, rest) := by
  unfold munchNumber
  rw [run.takeWhile_append, run.dropWhile_append]
  split
  · next c rest =>
    have : ¬(d.hasRealLiterals && c.isDigit) := by
      intro h
      rw [Bool.and_eq_true] at h
      exact whole ⟨h.1, c, rest, rfl, h.2⟩
    rw [if_neg this]
  · rfl

theorem munchNumber_real {fraction : List Char} (has : d.hasRealLiterals)
    (all : ∀ c ∈ more, c.isDigit) (nonempty : fraction ≠ []) (run : Run Char.isDigit fraction rest) :
    munchNumber d (more ++ '.' :: fraction ++ rest) = (more ++ '.' :: fraction, rest) := by
  have first : Run Char.isDigit more ('.' :: (fraction ++ rest)) :=
    ⟨all, fun c hc => by cases hc; decide⟩
  unfold munchNumber
  rw [List.append_assoc, List.cons_append, first.takeWhile_append, first.dropWhile_append]
  cases fraction with
  | nil => exact absurd rfl nonempty
  | cons c fraction =>
    have digit : c.isDigit := run.all c List.mem_cons_self
    simp [has, digit, run.tail.takeWhile_append, run.tail.dropWhile_append]

theorem munchNumber_of_fraction {cs : List Char} {c' : Char} (has : d.hasRealLiterals)
    (behind : cs.dropWhile Char.isDigit = '.' :: c' :: more) (digit : c'.isDigit) :
    munchNumber d cs = (cs.takeWhile Char.isDigit ++ '.' :: c' :: more.takeWhile Char.isDigit,
      more.dropWhile Char.isDigit) := by
  simp [munchNumber, behind, has, digit]

theorem munchNumber_of_whole {cs : List Char}
    (whole : ¬(d.hasRealLiterals ∧ StartsFraction (cs.dropWhile Char.isDigit))) :
    munchNumber d cs = (cs.takeWhile Char.isDigit, cs.dropWhile Char.isDigit) := by
  have cut := munchNumber_integer (run_takeWhile Char.isDigit cs) whole
  rwa [List.takeWhile_append_dropWhile] at cut

/-- **The text tells where a piece ends and of which kind it is.** -/
theorem Piece.munch_eq {piece : List Char} (h : Piece d k piece rest) :
    ∃ c more, piece = c :: more ∧ munch d c (more ++ rest) = (more, rest) ∧
      classify d piece = k := by
  cases h with
  | @mark c _ h =>
    obtain ⟨colon, operator, word, digit, hk⟩ := class_of_mark h
    exact ⟨c, [], rfl, munch_other colon operator word digit rest,
      (classify_other colon operator word digit).trans hk⟩
  | assign has =>
    refine ⟨':', ['='], rfl, ?_, classify_colon d ['=']⟩
    simp [munch_colon, munchColon, has]
  | colon h =>
    refine ⟨':', [], rfl, ?_, classify_colon d []⟩
    rw [munch_colon, List.nil_append]
    unfold munchColon
    split
    · next more =>
      have : ¬d.hasAssign := fun has => h ⟨has, rfl⟩
      rw [if_neg this]
    · rfl
  | operator nonempty run =>
    cases piece with
    | nil => exact absurd rfl nonempty
    | cons c more =>
      have hc : isOperatorChar c := run.all c List.mem_cons_self
      refine ⟨c, more, rfl, ?_, classify_operator hc⟩
      rw [munch_operator hc, run.tail.takeWhile_append, run.tail.dropWhile_append]
  | @word c more _ start run =>
    refine ⟨c, more, rfl, ?_, classify_word start⟩
    rw [munch_word start, run.tail.takeWhile_append, run.tail.dropWhile_append]
  | integer nonempty run whole =>
    cases piece with
    | nil => exact absurd rfl nonempty
    | cons c more =>
      have hc : c.isDigit := run.all c List.mem_cons_self
      refine ⟨c, more, rfl, ?_, classify_of_digits run.all⟩
      rw [munch_digit hc, munchNumber_integer run.tail whole]
  | @real digits fraction _ has nonempty all nonempty' run =>
    cases digits with
    | nil => exact absurd rfl nonempty
    | cons c digits =>
      obtain ⟨hc, all⟩ := List.forall_mem_cons.1 all
      refine ⟨c, digits ++ '.' :: fraction, rfl, ?_, classify_of_fraction hc⟩
      rw [munch_digit hc, munchNumber_real has all nonempty' run]
  | @other c mark colon operator word digit =>
    obtain ⟨-, error⟩ := (mark_or_error c).resolve_left (mark _)
    exact ⟨c, [], rfl, munch_other colon operator word digit rest,
      (classify_other colon operator word digit).trans error⟩

/-- A piece is determined by the text. -/
theorem Piece.unique {piece piece' rest' : List Char} {k' : Kind} (h : Piece d k piece rest)
    (h' : Piece d k' piece' rest') (same : piece ++ rest = piece' ++ rest') :
    k = k' ∧ piece = piece' ∧ rest = rest' := by
  obtain ⟨c, more, rfl, cut, rfl⟩ := h.munch_eq
  obtain ⟨c', more', rfl, cut', rfl⟩ := h'.munch_eq
  rw [List.cons_append, List.cons_append, List.cons.injEq] at same
  obtain ⟨rfl, same⟩ := same
  rw [same, cut'] at cut
  obtain ⟨rfl, rfl⟩ := Prod.mk.inj cut
  exact ⟨rfl, rfl, rfl⟩

theorem Piece.append_ne_nil {piece : List Char} (h : Piece d k piece rest) (cs : List Char) :
    piece ++ cs ≠ [] := by
  obtain ⟨c, more, rfl, -⟩ := h.munch_eq
  exact List.cons_ne_nil _ _

/-- A number is cut off where it ends. -/
theorem piece_number (hc : c.isDigit) (cs : List Char) :
    Piece d (classify d (c :: (munchNumber d cs).1)) (c :: (munchNumber d cs).1)
      (munchNumber d cs).2 := by
  have run := (run_takeWhile Char.isDigit cs).cons hc
  by_cases whole : d.hasRealLiterals ∧ StartsFraction (cs.dropWhile Char.isDigit)
  · obtain ⟨has, c', more, behind, digit⟩ := whole
    have fraction := (run_takeWhile Char.isDigit more).cons digit
    rw [munchNumber_of_fraction has behind digit, classify_of_fraction hc]
    exact .real has (List.cons_ne_nil _ _) run.all (List.cons_ne_nil _ _) fraction
  · rw [munchNumber_of_whole whole, classify_of_digits run.all]
    exact .integer (List.cons_ne_nil _ _) run whole

/-- An equals sign behind a colon is cut off with it where the dialect has assignment signs. -/
theorem piece_colon (d : Dialect) (cs : List Char) :
    Piece d (classify d (':' :: (munchColon d cs).1)) (':' :: (munchColon d cs).1)
      (munchColon d cs).2 := by
  rw [classify_colon]
  unfold munchColon
  split
  · next more =>
    by_cases has : d.hasAssign
    · rw [if_pos has]
      exact .assign has more
    · rw [if_neg has]
      exact .colon fun h => has h.1
  · next no =>
    refine .colon fun h => ?_
    cases cs with
    | nil => cases h.2
    | cons c more =>
      obtain rfl : c = '=' := by simpa using h.2
      exact no more rfl

/-- **What is cut off is a piece.** -/
theorem piece_munch (d : Dialect) (c : Char) (cs : List Char) :
    Piece d (classify d (c :: (munch d c cs).1)) (c :: (munch d c cs).1) (munch d c cs).2 := by
  by_cases operator : isOperatorChar c
  · rw [munch_operator operator, classify_operator operator]
    exact .operator (List.cons_ne_nil _ _) ((run_takeWhile _ cs).cons operator)
  by_cases word : isWordStart c
  · rw [munch_word word, classify_word word]
    exact .word word ((run_takeWhile _ cs).cons (isWordChar_of_isWordStart word))
  by_cases digit : c.isDigit
  · rw [munch_digit digit]
    exact piece_number digit cs
  by_cases colon : c = ':'
  · subst colon
    rw [munch_colon]
    exact piece_colon d cs
  · rw [munch_other colon operator word digit, classify_other colon operator word digit]
    rcases mark_or_error c with mark | ⟨noMark, error⟩
    · exact .mark mark cs
    · rw [error]
      exact .other noMark colon operator word digit cs

end

/-! ### A piece in front of another text -/

/-- No piece that ends in front of the text `rest` goes on in front of the text `rest'`: that one
starts as the other does, or with a blank. -/
structure NoFurther (rest rest' : List Char) : Prop where
  head : ∀ c ∈ rest'.head?, rest.head? = some c ∨ c ∈ blanks
  fraction : StartsFraction rest' → StartsFraction rest

section

variable {rest rest' : List Char}

theorem Run.transfer {p : Char → Bool} {run : List Char} (h : Run p run rest)
    (table : blanks.all fun c => !p c) (stop : NoFurther rest rest') : Run p run rest' := by
  refine ⟨h.all, fun c hc => ?_⟩
  rcases stop.head c hc with same | blank
  · exact h.stop c same
  · simpa using List.all_eq_true.1 table c blank

/-- **A piece ends where it ends**, also in front of a text that takes it no further. -/
theorem Piece.transfer {d : Dialect} {k : Kind} {piece : List Char} (h : Piece d k piece rest)
    (stop : NoFurther rest rest') : Piece d k piece rest' := by
  cases h with
  | mark h => exact .mark h _
  | assign has => exact .assign has _
  | colon h =>
    refine .colon fun ⟨has, sign⟩ => ?_
    rcases stop.head '=' sign with same | blank
    · exact h ⟨has, same⟩
    · exact absurd blank (by decide)
  | operator nonempty run => exact .operator nonempty (run.transfer (by decide) stop)
  | word start run => exact .word start (run.transfer (by decide) stop)
  | integer nonempty run whole =>
    refine .integer nonempty (run.transfer (by decide) stop) ?_
    exact fun ⟨has, fraction⟩ => whole ⟨has, stop.fraction fraction⟩
  | real has nonempty all nonempty' run =>
    exact .real has nonempty all nonempty' (run.transfer (by decide) stop)
  | other mark colon operator word digit => exact .other mark colon operator word digit _

end

/-! ### What a piece is made of -/

/-- The characters that a piece may have behind its first one. -/
def isInner (c : Char) : Bool := isOperatorChar c || isWordChar c || c == '.'

theorem isInner_of_isDigit {c : Char} (h : c.isDigit) : isInner c := by
  simp [isInner, isWordChar, Char.isAlphanum, h]

/-- Behind its first character a piece has no blank, no brace and no colon. -/
theorem Piece.isInner_of_mem {d : Dialect} {k : Kind} {c : Char} {more rest : List Char}
    (h : Piece d k (c :: more) rest) : ∀ c' ∈ more, isInner c' := by
  generalize hp : c :: more = piece at h
  cases h with
  | operator _ run =>
    intro c' hc'
    simp [isInner, run.all c' (hp ▸ List.mem_cons_of_mem c hc')]
  | word _ run =>
    intro c' hc'
    simp [isInner, run.all c' (hp ▸ List.mem_cons_of_mem c hc')]
  | integer _ run =>
    intro c' hc'
    exact isInner_of_isDigit (run.all c' (hp ▸ List.mem_cons_of_mem c hc'))
  | real _ _ all _ run =>
    intro c' hc'
    have mem := hp ▸ List.mem_cons_of_mem c hc'
    rcases List.mem_append.1 mem with mem | mem
    · exact isInner_of_isDigit (all c' mem)
    · rcases List.mem_cons.1 mem with rfl | mem
      · decide
      · exact isInner_of_isDigit (run.all c' mem)
  | assign =>
    obtain ⟨-, rfl⟩ := List.cons.inj hp
    intro c' hc'
    rw [List.mem_singleton.1 hc']
    decide
  | _ =>
    obtain ⟨-, rfl⟩ := List.cons.inj hp
    nofun

end Lexis

open Lexis

/-! ## Tilings -/

/-- A piece with its kind, and the gap in front of it. -/
@[ext]
structure Tile where
  gap : List Char
  kind : Kind
  piece : List Char

/-- The token that is read from a piece: of its characters at most `Token.maxLexeme` are kept. -/
def Tile.token (t : Tile) : Token := Token.ofChars t.kind t.piece

/-- The text is cut into the tiles and the last gap. -/
inductive Tiling (d : Dialect) : List Tile → List Char → List Char → Prop
  | last {g : List Char} (gap : WholeGap d g []) : Tiling d [] g g
  | tile {t : Tile} {tiles : List Tile} {g rest : List Char}
      (gap : WholeGap d t.gap (t.piece ++ rest)) (piece : Piece d t.kind t.piece rest)
      (later : Tiling d tiles g rest) : Tiling d (t :: tiles) g (t.gap ++ (t.piece ++ rest))

/-- How a text may be cut: into tiles, and what is left behind the last one. -/
@[ext]
structure Cut where
  tiles : List Tile
  last : List Char

namespace Cut

/-- What is cut so. -/
def text (cut : Cut) : List Char :=
  cut.tiles.flatMap (fun t => t.gap ++ t.piece) ++ cut.last

/-- The tokens that are read from the pieces. -/
def tokens (cut : Cut) : List Token := cut.tiles.map Tile.token

/-- It is as the lexical grammar says. -/
def Tiles (cut : Cut) (d : Dialect) (cs : List Char) : Prop := Tiling d cut.tiles cut.last cs

end Cut

section

variable {d : Dialect} {tiles tiles' : List Tile} {g g' cs cs' : List Char}

/-- A tiling loses nothing. -/
theorem Tiling.text_eq (h : Tiling d tiles g cs) :
    tiles.flatMap (fun t => t.gap ++ t.piece) ++ g = cs := by
  induction h with
  | last => rfl
  | tile _ _ _ ih => simp [ih]

/-- Each of the tiles is one of the lexical grammar, in front of what follows it. -/
theorem Tiling.of_mem {t : Tile} (h : Tiling d tiles g cs) (mem : t ∈ tiles) :
    ∃ rest, WholeGap d t.gap (t.piece ++ rest) ∧ Piece d t.kind t.piece rest := by
  induction h with
  | last => cases mem
  | @tile t' tiles _ rest gap piece later ih =>
    rcases List.mem_cons.1 mem with rfl | mem
    · exact ⟨rest, gap, piece⟩
    · exact ih mem

/-- The piece behind the gap is what is scanned. -/
theorem scan?_of_piece {k : Kind} {piece rest : List Char}
    (gap : dropGap d false cs = piece ++ rest) (h : Piece d k piece rest) :
    scan? d cs = some (Token.ofChars k piece, rest) := by
  obtain ⟨c, more, rfl, cut, rfl⟩ := h.munch_eq
  unfold scan?
  rw [gap]
  simp only [List.cons_append, cut]

/-- A text is a whole gap, or its first token is read from its first tile. -/
theorem scan?_cases (d : Dialect) (cs : List Char) :
    WholeGap d cs [] ∧ scan? d cs = none ∨
      ∃ t rest, t.gap ++ (t.piece ++ rest) = cs ∧ WholeGap d t.gap (t.piece ++ rest) ∧
        Piece d t.kind t.piece rest ∧ scan? d cs = some (Tile.token t, rest) := by
  obtain ⟨g, whole, gap⟩ := exists_wholeGap d cs
  unfold scan?
  split
  · next h =>
    rw [h] at gap whole
    rw [List.append_nil] at whole
    exact .inl ⟨whole ▸ gap, rfl⟩
  · next c more h =>
    have cut : c :: (munch d c more).1 ++ (munch d c more).2 = c :: more :=
      congrArg (c :: ·) (munch_append d c more)
    rw [h, ← cut] at gap whole
    exact .inr ⟨⟨g, _, _⟩, _, whole, gap, piece_munch d c more, rfl⟩

/-- **Scanning tiles the text.** -/
theorem exists_tiling (d : Dialect) (cs : List Char) :
    ∃ tiles g, Tiling d tiles g cs ∧ tokens d cs = tiles.map Tile.token := by
  induction hn : cs.length using Nat.strongRecOn generalizing cs with
  | _ n ih =>
  rcases scan?_cases d cs with ⟨gap, none⟩ | ⟨t, rest, whole, gap, piece, some⟩
  · exact ⟨[], cs, .last gap, tokens_of_none none⟩
  · have shorter : rest.length < n := hn ▸ (scan?_suffix some).2
    obtain ⟨tiles, g, later, same⟩ := ih rest.length shorter rest rfl
    refine ⟨t :: tiles, g, whole ▸ .tile gap piece later, ?_⟩
    rw [tokens_of_some some, same]
    rfl

/-- Each token is read from a piece behind a gap. -/
theorem exists_tile_of_mem {token : Token} (h : token ∈ tokens d cs) :
    ∃ t rest, token = Tile.token t ∧ WholeGap d t.gap (t.piece ++ rest) ∧
      Piece d t.kind t.piece rest := by
  obtain ⟨tiles, g, tiling, same⟩ := exists_tiling d cs
  rw [same] at h
  obtain ⟨t, mem, rfl⟩ := List.mem_map.1 h
  obtain ⟨rest, gap, piece⟩ := tiling.of_mem mem
  exact ⟨t, rest, rfl, gap, piece⟩

/-- **There is one way to tile a text.** -/
theorem Tiling.unique (h : Tiling d tiles g cs) (h' : Tiling d tiles' g' cs) :
    tiles = tiles' ∧ g = g' := by
  induction h generalizing tiles' with
  | @last g gap =>
    cases h' with
    | last => exact ⟨rfl, rfl⟩
    | tile gap' piece =>
      obtain ⟨-, same⟩ := gap'.unique gap (List.append_nil _).symm
      exact absurd same (piece.append_ne_nil _)
  | @tile t tiles g rest gap piece later ih =>
    generalize hcs : t.gap ++ (t.piece ++ rest) = cs at h'
    cases h' with
    | last gap' =>
      obtain ⟨-, same⟩ := gap.unique gap' (hcs.trans (List.append_nil _).symm)
      exact absurd same (piece.append_ne_nil _)
    | @tile t' tiles' _ rest' gap' piece' later' =>
      obtain ⟨sameGap, same⟩ := gap.unique gap' hcs
      obtain ⟨sameKind, samePiece, rfl⟩ := piece.unique piece' same
      obtain ⟨rfl, rfl⟩ := ih later'
      exact ⟨congrArg (· :: tiles) (Tile.ext sameGap sameKind samePiece), rfl⟩

end

end MiniPascal
