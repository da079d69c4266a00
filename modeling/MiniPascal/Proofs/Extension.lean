import MiniPascal.Proofs.Acceptance
import MiniPascal.Proofs.Tiling

/-!
# The extended dialect extends the standard one

The two dialects cut a text into different tokens and check them by different rules. Still a text
that is a program of the standard dialect is one of the extended dialect, and the check of it says
the same.

* `Derivation.widen` — a derivation by some rules is one by more rules.
* `ReadAlike` — no token is an error, and none is a number with a dot behind it. Then each dialect
  reads these tokens (`isPrefix_extended`): there is no brace to open a comment, no fraction, and
  the pairs of operator characters are errors in the standard dialect.

A program is read alike (`Tree.readAlike`), since there is one dot in it, behind its last END. What
comes behind the dot may be read in two ways, but neither check looks at it.

For whole programs this is `check_extended_eq`.
-/

namespace MiniPascal

open Grammar

/-! ## More rules -/

section

variable {d d' : Dialect}

/-- The rules of the dialect `d` are rules of the dialect `d'`. -/
def Grammar.Extends (d d' : Dialect) : Prop :=
  ∀ p, ∀ parts ∈ productions d p, parts ∈ productions d' p

theorem Grammar.extended_extends : Extends .standard .extended := by
  intro p
  cases p <;> decide

namespace Derivation

variable {ss : List Symbol}

/-- The same derivation, by more rules. -/
def widen (more : Extends d d') : {ss : List Symbol} → Derivation d ss → Derivation d' ss
  | _, nil => nil
  | _, token k rest => token k (rest.widen more)
  | _, phrase p rule inside rest =>
    phrase p (more p _ rule) (inside.widen more) (rest.widen more)

variable (more : Extends d d') (t : Derivation d ss)

@[simp] theorem kinds_widen : (t.widen more).kinds = t.kinds := by
  induction t with
  | nil => rfl
  | token k rest ih => exact congrArg (k :: ·) ih
  | phrase p rule inside rest ihi ihr => simp only [widen, kinds, ihi, ihr]

@[simp] theorem nesting_widen : (t.widen more).nesting = t.nesting := by
  induction t with
  | nil => rfl
  | token k rest ih => exact ih
  | phrase p rule inside rest ihi ihr => simp only [widen, nesting, ihi, ihr]

@[simp] theorem traces_widen : (t.widen more).traces = t.traces := by
  induction t with
  | nil => rfl
  | token k rest ih => exact ih
  | phrase p rule inside rest ihi ihr => simp only [widen, traces, kinds_widen, ihi, ihr]

@[simp] theorem takesElse_widen : (t.widen more).TakesElse ↔ t.TakesElse := by
  induction t with
  | nil => exact Iff.rfl
  | token k rest ih => exact ih
  | phrase p rule inside rest ihi ihr => simp only [widen, TakesElse, kinds_widen, ihi, ihr]

@[simp] theorem elsesNearest_widen : (t.widen more).ElsesNearest ↔ t.ElsesNearest := by
  induction t with
  | nil => exact Iff.rfl
  | token k rest ih => exact ih
  | phrase p rule inside rest ihi ihr =>
    simp only [widen, ElsesNearest, kinds_widen, takesElse_widen, ihi, ihr]

end Derivation

end

/-! ## Scanning in both dialects -/

namespace Lexis

section

variable {cs rest piece : List Char} {c : Char} {k : Kind}

/-- The gap in front of anything but a brace is the same in both dialects. -/
theorem dropGap_extended (h : dropGap .standard false cs = c :: rest) (hc : c ≠ '{') :
    dropGap .extended false cs = c :: rest := by
  induction cs with
  | nil => cases h
  | cons c' cs ih =>
    by_cases blank : isBlank c'
    · simp only [dropGap, blank] at h ⊢
      exact ih h
    · have stop : dropGap .standard false (c' :: cs) = c' :: cs := by
        simp [dropGap, blank, Dialect.hasComments]
      obtain ⟨rfl, rfl⟩ := List.cons.inj (stop.symm.trans h)
      simp [dropGap, blank, hc]

theorem operatorKind_extended {signs : List Char} (h : operatorKind .standard signs ≠ .error) :
    operatorKind .extended signs = operatorKind .standard signs := by
  unfold operatorKind at h ⊢
  split at h <;> first | rfl | exact absurd rfl h

/-- A piece is one of the extended dialect as well, unless it is an error or a number that may go
on behind a dot. -/
theorem Piece.extended (h : Piece .standard k piece rest) (known : k ≠ .error)
    (whole : k = .integerLiteral → rest.head? ≠ some '.') : Piece .extended k piece rest := by
  cases h with
  | mark h => exact .mark h rest
  | assign => exact .assign rfl rest
  | colon h => exact .colon h
  | operator nonempty run =>
    rw [← operatorKind_extended known]
    exact .operator nonempty run
  | word start run => exact .word start run
  | integer nonempty run =>
    refine .integer nonempty run ?_
    intro ⟨_, c, more, fraction, _⟩
    exact whole rfl (congrArg List.head? fraction)
  | real has => cases has
  | other => exact absurd rfl known

/-- No piece starts with a brace, unless it is an error. -/
theorem Piece.head_ne_brace {d : Dialect} (h : Piece d k (c :: piece) rest) (known : k ≠ .error) :
    c ≠ '{' := by
  rintro rfl
  obtain ⟨_, _, same, cut, kind⟩ := h.munch_eq
  obtain ⟨rfl, rfl⟩ := List.cons.inj same
  have none : piece = [] := (Prod.mk.inj cut).1.symm
  rw [none] at kind
  exact known kind.symm

/-- A token is scanned in both dialects, unless it is an error or a number in front of a dot. -/
theorem scan?_extended {t : Token} (h : scan? .standard cs = some (t, rest))
    (known : t.kind ≠ .error) (whole : t.kind = .integerLiteral → rest.head? ≠ some '.') :
    scan? .extended cs = some (t, rest) := by
  rcases scan?_cases .standard cs with ⟨-, none⟩ | ⟨tile, _, rfl, gap, piece, some⟩
  · rw [none] at h
    cases h
  · obtain ⟨rfl, rfl⟩ := Prod.mk.inj (Option.some.inj (some.symm.trans h))
    have skipped := gap.dropGap_eq
    have extended := piece.extended known whole
    obtain ⟨c, more, same, -⟩ := piece.munch_eq
    rw [same] at piece skipped
    refine scan?_of_piece ?_ extended
    rw [same]
    exact dropGap_extended skipped (piece.head_ne_brace known)

/-- A dot in front is a token by itself. -/
theorem scan?_dot (d : Dialect) (cs : List Char) :
    scan? d ('.' :: cs) = some (Token.ofChars .dot ['.'], cs) :=
  scan?_of_piece rfl (.mark (by decide) cs)

end

end Lexis

/-! ### Tokens that are read alike -/

/-- None of the tokens is an error, and no number has a dot behind it or is the last one. -/
def ReadAlike : List Kind → Prop
  | [] => True
  | k :: ks => k ≠ .error ∧ (k = .integerLiteral → ks ≠ [] ∧ front ks ≠ .dot) ∧ ReadAlike ks

/-- **Tokens that are read alike in both dialects.** If a text starts with them in the standard
dialect, it does so in the extended one. -/
theorem ReadAlike.isPrefix_extended {ks : List Kind} (h : ReadAlike ks) {cs : List Char}
    (start : ks <+: (tokens .standard cs).map Token.kind) :
    ks <+: (tokens .extended cs).map Token.kind := by
  induction ks generalizing cs with
  | nil => exact List.nil_prefix
  | cons k ks ih =>
    obtain ⟨known, number, others⟩ := h
    cases scanned : scan? .standard cs with
    | none =>
      rw [tokens_of_none scanned] at start
      cases List.prefix_nil.1 start
    | some found =>
      obtain ⟨t, rest⟩ := found
      rw [tokens_of_some scanned, List.map_cons, List.cons_prefix_cons] at start
      obtain ⟨rfl, start⟩ := start
      have whole : t.kind = .integerLiteral → rest.head? ≠ some '.' := by
        intro hk dot
        obtain ⟨nonempty, no⟩ := number hk
        obtain ⟨more, rfl⟩ := List.head?_eq_some_iff.1 dot
        rw [tokens_of_some (Lexis.scan?_dot .standard more), List.map_cons] at start
        cases ks with
        | nil => exact nonempty rfl
        | cons k ks => exact no (List.cons_prefix_cons.1 start).1
      rw [tokens_of_some (Lexis.scan?_extended scanned known whole), List.map_cons,
        List.cons_prefix_cons]
      exact ⟨rfl, ih others start⟩

/-! ### Programs are read alike -/

section

variable {d : Dialect} {ss : List Symbol} {ks : List Kind}

/-- The symbol is neither a dot nor an error, nor does it contain one. -/
def Symbol.plain : Symbol → Bool
  | token .dot | token .error | phrase .program => false
  | _ => true

theorem plain_of_mem_parts (d : Dialect) (p : Phrase) :
    (Symbol.phrase p).plain → ∀ parts ∈ productions d p, ∀ symbol ∈ parts, symbol.plain := by
  cases d <;> cases p <;> decide

/-- What ends with a phrase ends as the phrase does. -/
theorem Derives.exists_concat {p : Phrase} {k : Kind} (h : Derives d (ss ++ [.phrase p]) ks)
    (ending : ∀ parts ∈ productions d p, ∀ ks, Derives d parts ks → ∃ more, ks = more ++ [k]) :
    ∃ more, ks = more ++ [k] := by
  obtain ⟨front, _, rfl, -, h⟩ := derives_append.1 h
  obtain ⟨parts, rule, _, _, rfl, hp, hb⟩ := derives_phrase.1 h
  obtain rfl := derives_nil.1 hb
  obtain ⟨more, rfl⟩ := ending parts rule _ hp
  exact ⟨front ++ more, by simp⟩

/-- What ends with a token is derived in front of it. -/
theorem Derives.exists_front {k : Kind} (h : Derives d (ss ++ [.token k]) ks) :
    ∃ more, ks = more ++ [k] ∧ Derives d ss more := by
  obtain ⟨more, _, rfl, derived, h⟩ := derives_append.1 h
  obtain ⟨_, rfl, none⟩ := derives_token.1 h
  obtain rfl := derives_nil.1 none
  exact ⟨more, rfl, derived⟩

/-- A compound command ends with END. -/
theorem exists_concat_of_compound (rule : ss ∈ productions d .compound) (h : Derives d ss ks) :
    ∃ more, ks = more ++ [.kwEnd] := by
  obtain rfl := List.mem_singleton.1 rule
  have h : Derives d ([.token .kwBegin, .phrase .command, .phrase .moreCommands] ++
      [.token .kwEnd]) ks := h
  obtain ⟨more, same, -⟩ := h.exists_front
  exact ⟨more, same⟩

/-- A block ends with a compound command. -/
theorem exists_concat_of_block (rule : ss ∈ productions d .block) (h : Derives d ss ks) :
    ∃ more, ks = more ++ [.kwEnd] := by
  have ending : ∀ parts ∈ productions d .compound, ∀ ks, Derives d parts ks →
      ∃ more, ks = more ++ [.kwEnd] := fun _ rule _ => exists_concat_of_compound rule
  simp only [productions, List.mem_cons, List.not_mem_nil, or_false] at rule
  rcases rule with rfl | rfl
  · have h : Derives d ([.phrase .varDeclaration, .phrase .procedures] ++ [.phrase .compound]) ks :=
      h
    exact h.exists_concat ending
  · have h : Derives d ([.phrase .procedures] ++ [.phrase .compound]) ks := h
    exact h.exists_concat ending

theorem readAlike_of_dot (noDot : .dot ∉ ks) (noError : .error ∉ ks) :
    ReadAlike (ks ++ [.kwEnd, .dot]) := by
  induction ks with
  | nil => exact ⟨nofun, nofun, nofun, nofun, trivial⟩
  | cons k ks ih =>
    rw [List.mem_cons, not_or] at noDot noError
    refine ⟨Ne.symm noError.1, ?_, ih noDot.2 noError.2⟩
    intro _
    cases ks with
    | nil => exact ⟨nofun, nofun⟩
    | cons k' ks =>
      refine ⟨nofun, fun dot => ?_⟩
      exact noDot.2 (List.mem_cons.2 (.inl dot.symm))

/-- **A program is read alike.** Its only dot is the last token, and END is in front of it. -/
theorem Tree.readAlike (t : Tree d .program) : ReadAlike t.kinds := by
  obtain ⟨_, rule, _, _, split, h, hb⟩ := derives_phrase.1 ⟨t, rfl⟩
  obtain rfl := derives_nil.1 hb
  obtain rfl := List.mem_singleton.1 rule
  have h : Derives d ([.token .kwProgram, .token .identifier, .token .semicolon, .phrase .block] ++
      [.token .dot]) _ := h
  obtain ⟨_, rfl, derived⟩ := h.exists_front
  have h : Derives d ([.token .kwProgram, .token .identifier, .token .semicolon] ++
      [.phrase .block]) _ := derived
  obtain ⟨more, rfl⟩ := h.exists_concat fun _ rule _ => exists_concat_of_block rule
  obtain ⟨t', ht'⟩ := derived
  have plain := t'.forall_mem_kinds (P := fun symbol => symbol.plain) (plain_of_mem_parts d)
    (by decide)
  rw [ht', List.forall_mem_append] at plain
  rw [split, List.append_nil, List.append_assoc]
  refine readAlike_of_dot ?_ ?_
  · intro h
    exact absurd (plain.1 _ h) (by decide)
  · intro h
    exact absurd (plain.1 _ h) (by decide)

end

/-! ## Whole programs -/

/-- **The extended dialect extends the standard one.** If the check of a text finds nothing wrong in
the standard dialect, the check in the extended dialect says the same. -/
theorem check_extended_eq {text : String} {r : Recovery} {n : Nat}
    (clean : (check text ⟨.standard, r, n⟩).isClean) :
    check text ⟨.extended, r, n⟩ = check text ⟨.standard, r, n⟩ ∧
      (check text ⟨.extended, r, n⟩).isClean := by
  obtain ⟨_, σ, walk⟩ := exists_walk_check text ⟨.standard, r, n⟩
  have regular : ∀ step ∈ [Step.phrase .program], step.regular := by decide
  obtain ⟨t, fits⟩ := (walk.passage regular).exists_derivation ((isClean_iff_reports _).1 clean)
  have start : t.kinds <+: kinds text .standard := ⟨σ.ahead, fits.kinds⟩
  obtain ⟨more, hm⟩ := (Tree.readAlike t).isPrefix_extended start
  have fits' : (t.widen extended_extends).Fits (n - 0) (kinds text .extended) more := by
    refine ⟨?_, ?_, ?_, ?_⟩
    · rw [Derivation.kinds_widen]
      exact hm
    · rw [Derivation.nesting_widen]
      exact fits.nesting
    · rw [Derivation.elsesNearest_widen]
      exact fits.nearest
    · intro takes
      exact absurd takes (Tree.not_takesElse _)
  obtain ⟨_, standard⟩ := t.exists_walk (s := ⟨.standard, r, n⟩) (n := 0) followed_program
    (Kind.mem_all _) fits
  obtain ⟨_, extended⟩ := (t.widen extended_extends).exists_walk (s := ⟨.extended, r, n⟩) (n := 0)
    followed_program (Kind.mem_all _) fits'
  rw [Derivation.traces_widen] at extended
  have lines := extended.lines_check
  rw [isClean_iff_reports, lines, reports_map_trace]
  exact ⟨congrArg Transcript.mk (lines.trans standard.lines_check.symm), rfl⟩

/-- Behind the last dot the dialects go apart: to one of them the brace is an error and the fraction
three tokens, and to the other all of it is a comment. -/
theorem check_extended_eq_comment :
    (check "program p; var a: real; begin if a < 1 then a := -a end. \x7b<= 1.5"
        ⟨.standard, .insert, 3⟩).isClean ∧
      check "program p; var a: real; begin if a < 1 then a := -a end. \x7b<= 1.5"
          ⟨.extended, .insert, 3⟩ =
        check "program p; var a: real; begin if a < 1 then a := -a end. \x7b<= 1.5"
          ⟨.standard, .insert, 3⟩ ∧
      (check "program p; var a: real; begin if a < 1 then a := -a end. \x7b<= 1.5"
        ⟨.extended, .insert, 3⟩).isClean :=
  have clean : (check "program p; var a: real; begin if a < 1 then a := -a end. \x7b<= 1.5"
      ⟨.standard, .insert, 3⟩).isClean := by decide +kernel
  ⟨clean, check_extended_eq clean⟩

end MiniPascal
