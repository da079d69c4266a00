import MiniPascal.Proofs.Tiling

/-!
# What the dialects change in scanning

Dialects differ in the kinds that they give to pieces, and in where they cut a text. Two of them
cut a text at the same places if neither sees a comment, an assignment sign or a fraction there.
Then each has the tokens of the other, with new labels.

* `Token.unreserved` — the reserved words but `program` are identifiers.
* `Token.withPairs` — three of the errors are relations.

**Theorem (`tokens_eq_map`).** If gaps end at the same places, and every piece of one dialect is a
piece of the other with its new label, then so are all tokens.

Where a colon has an equals sign behind it, the standard dialect reads an assignment sign, and no
label makes that of what the legacy dialect reads (`exists_assign`). So the first relation between
dialects has an exact condition. Both are in `tokenize_of_dialects`.
-/

namespace MiniPascal

/-! ## New labels -/

/-- The kind of a token where no word but `program` is reserved. -/
def Kind.unreserved (k : Kind) : Kind :=
  if k ∈ Lexis.reservedWords.map Prod.snd ∧ k ≠ .kwProgram then .identifier else k

namespace Token

/-- The token where no word but `program` is reserved. -/
def unreserved (t : Token) : Token := { t with kind := t.kind.unreserved }

/-- The token where pairs of operator characters are relations. -/
def withPairs (t : Token) : Token :=
  if t = ⟨.error, "<="⟩ then ⟨.lessEqual, "<="⟩
  else if t = ⟨.error, ">="⟩ then ⟨.greaterEqual, ">="⟩
  else if t = ⟨.error, "<>"⟩ then ⟨.notEqual, "<>"⟩
  else t

theorem withPairs_of_ne_error {t : Token} (h : t.kind ≠ .error) : t.withPairs = t := by
  have other (lexeme : String) : t ≠ ⟨.error, lexeme⟩ := fun same => h (congrArg kind same)
  simp only [withPairs, other, if_false]

/-- An error stays one if it was read from none of the pairs. -/
theorem withPairs_of_error {cs : List Char}
    (h : ∀ pair ∈ [['<', '='], ['>', '='], ['<', '>']], cs ≠ pair) :
    (ofChars .error cs).withPairs = ofChars .error cs := by
  have other {lexeme : String} (pair : lexeme.toList ∈ [['<', '='], ['>', '='], ['<', '>']]) :
      ofChars .error cs ≠ ⟨.error, lexeme⟩ := by
    intro same
    have kept : cs.take maxLexeme = lexeme.toList := by
      rw [← toList_lexeme_ofChars .error, same]
    have table : ∀ pair ∈ [['<', '='], ['>', '='], ['<', '>']], pair.length = 2 := by decide
    have lengths : min maxLexeme cs.length = 2 := by
      rw [← List.length_take, kept, table _ pair]
    have whole : cs.length ≤ maxLexeme := by
      have places : maxLexeme = 99 := rfl
      omega
    rw [List.take_of_length_le whole] at kept
    exact h _ pair kept
  rw [withPairs, if_neg (other (by decide)), if_neg (other (by decide)),
    if_neg (other (by decide))]

end Token

namespace Lexis

section

variable {d d' : Dialect} {cs b piece rest : List Char} {k : Kind}

/-! ## Texts that are cut at the same places -/

/-- Where there are no comments, gaps are blanks. -/
theorem dropGap_eq_dropWhile (h : d.hasComments → '{' ∉ cs) :
    dropGap d false cs = cs.dropWhile isBlank := by
  induction cs with
  | nil => rfl
  | cons c cs ih =>
    by_cases blank : isBlank c
    · simpa [dropGap, blank] using ih fun has => fun mem => h has (List.mem_cons_of_mem c mem)
    · have stop : ¬(c = '{' ∧ d.hasComments) := by
        rintro ⟨rfl, has⟩
        exact h has List.mem_cons_self
      simp [dropGap, blank, stop]

/-- **Tokens with new labels.** -/
theorem tokens_eq_map {f : Token → Token}
    (gap : ∀ rest, rest <:+ cs → dropGap d' false rest = dropGap d false rest)
    (relabelled : ∀ k piece rest, piece ++ rest <:+ cs → Piece d k piece rest →
      ∃ k', Piece d' k' piece rest ∧ Token.ofChars k' piece = f (Token.ofChars k piece)) :
    tokens d' cs = (tokens d cs).map f := by
  induction hn : cs.length using Nat.strongRecOn generalizing cs with
  | _ n ih =>
  have skipped := gap cs List.suffix_rfl
  rcases scan?_cases d cs with ⟨blank, none⟩ | ⟨t, rest, whole, blank, piece, some⟩
  · have none' : dropGap d' false cs = [] := by
      rw [skipped]
      simpa using blank.dropGap_eq
    rw [tokens_of_none none, tokens_of_none (by rw [scan?, none'])]
    rfl
  · have behind : t.piece ++ rest <:+ cs := whole ▸ List.suffix_append _ _
    obtain ⟨k', piece', label⟩ := relabelled _ _ _ behind piece
    have later := (List.suffix_append _ _).trans behind
    have shorter : rest.length < n := hn ▸ (scan?_suffix some).2
    have skipped' : dropGap d' false cs = t.piece ++ rest := by
      rw [skipped, ← whole, blank.dropGap_eq]
    rw [tokens_of_some some, tokens_of_some (scan?_of_piece skipped' piece'), label,
      ih _ shorter (fun rest' h => gap rest' (h.trans later))
        (fun k piece rest' h => relabelled k piece rest' (h.trans later)) rfl]
    rfl

/-! ## Without reserved words -/

/-- The kind of a word, where all are reserved and where only one is. -/
theorem wordKind_legacy (word : List Char) :
    wordKind .legacy word = (wordKind .standard word).unreserved := by
  unfold wordKind
  split
  · next entry k found =>
    have table : ∀ entry ∈ reservedWords,
        (if entry.2 == .kwProgram then entry.2 else .identifier) = entry.2.unreserved := by decide
    exact table _ (List.mem_of_find?_eq_some found)
  · rfl

theorem unreserved_operatorKind (signs : List Char) :
    (operatorKind .standard signs).unreserved = operatorKind .standard signs := by
  have table : ∀ k ∈ operatorKinds, k.unreserved = k := by decide
  exact table _ (operatorKind_mem .standard signs)

/-- A piece of the standard dialect is one of the legacy dialect, unless it is an assignment
sign. -/
theorem Piece.legacy (h : Piece .standard k piece rest) (known : k ≠ .assign) :
    Piece .legacy k.unreserved piece rest := by
  cases h with
  | @mark c k h =>
    have table : ∀ m ∈ marks, m.2.unreserved = m.2 := by decide
    rw [table _ h]
    exact .mark h rest
  | assign => exact absurd rfl known
  | colon => exact .colon nofun
  | operator nonempty run =>
    rw [unreserved_operatorKind]
    exact .operator nonempty run
  | word start run =>
    rw [← wordKind_legacy]
    exact .word start run
  | integer nonempty run => exact .integer nonempty run nofun
  | real has => cases has
  | other mark colon operator word digit => exact .other mark colon operator word digit rest

/-! ### Assignment signs -/

/-- Only a colon with an equals sign is an assignment sign, and only where the dialect has them. -/
theorem Piece.of_assign (h : Piece d k piece rest) (hk : k = .assign) :
    d.hasAssign ∧ piece = [':', '='] := by
  cases h with
  | mark h =>
    have table : ∀ m ∈ marks, m.2 ≠ .assign := by decide
    exact absurd hk (table _ h)
  | assign has => exact ⟨has, rfl⟩
  | operator => exact absurd (hk ▸ operatorKind_mem d piece) (by decide)
  | word => exact absurd (hk ▸ wordKind_mem d _) (by decide)
  | _ => cases hk

/-- A place in a text is not passed over with what the character there is no part of. -/
theorem cons_suffix_of_not_mem {c : Char} {front back behind : List Char}
    (h : c :: behind <:+ front ++ back) (hc : c ∉ front) : c :: behind <:+ back := by
  induction front with
  | nil => exact h
  | cons c' front ih =>
    rw [List.mem_cons, not_or] at hc
    rcases List.suffix_cons_iff.1 h with same | later
    · exact absurd (List.cons.inj same).1 hc.1
    · exact ih later hc.2

/-- **A colon and an equals sign are read as an assignment sign**, wherever they are. -/
theorem exists_assign (has : d.hasAssign) (none : ¬d.hasComments) (h : ':' :: '=' :: b <:+ cs) :
    ∃ t ∈ tokens d cs, t.kind = .assign := by
  induction hn : cs.length using Nat.strongRecOn generalizing cs with
  | _ n ih =>
  have skipped : dropGap d false cs = cs.dropWhile isBlank :=
    dropGap_eq_dropWhile fun has => absurd has none
  have behind : ':' :: '=' :: b <:+ dropGap d false cs := by
    rw [← List.takeWhile_append_dropWhile (p := isBlank) (l := cs)] at h
    rw [skipped]
    refine cons_suffix_of_not_mem h fun mem => ?_
    exact absurd (List.all_eq_true.1 List.all_takeWhile _ mem) (by decide)
  rcases scan?_cases d cs with ⟨blank, -⟩ | ⟨t, rest, whole, blank, piece, some⟩
  · have all : dropGap d false cs = [] := by simpa using blank.dropGap_eq
    rw [all] at behind
    cases List.suffix_nil.1 behind
  have found : dropGap d false cs = t.piece ++ rest := by rw [← whole, blank.dropGap_eq]
  have shorter : rest.length < n := hn ▸ (scan?_suffix some).2
  rw [found] at behind
  rw [tokens_of_some some]
  obtain ⟨c, more, same, cut, kind⟩ := piece.munch_eq
  rw [same] at piece behind kind
  rcases List.suffix_cons_iff.1 behind with here | later
  · -- The colon is the first character of the piece.
    obtain ⟨rfl, sign⟩ := List.cons.inj here
    have sign : '=' :: b = more ++ rest := sign
    rw [← sign, munch_colon, munchColon, if_pos has] at cut
    obtain ⟨rfl, -⟩ := Prod.mk.inj cut
    rw [classify_colon] at kind
    exact ⟨_, List.mem_cons_self, kind.symm⟩
  · have inRest := cons_suffix_of_not_mem later fun mem =>
      absurd (piece.isInner_of_mem _ mem) (by decide)
    obtain ⟨t', mem, kind'⟩ := ih _ shorter inRest rfl
    exact ⟨t', List.mem_cons_of_mem _ mem, kind'⟩

/-- **The tokens without reserved words** are those with other labels exactly if there is no
assignment sign. -/
theorem tokens_legacy_iff (cs : List Char) :
    tokens .legacy cs = (tokens .standard cs).map Token.unreserved ↔ ¬[':', '='] <:+: cs := by
  constructor
  · rintro same ⟨a, b, rfl⟩
    have sign : ':' :: '=' :: b <:+ a ++ [':', '='] ++ b := ⟨a, by simp⟩
    obtain ⟨t, mem, kind⟩ := exists_assign (d := .standard) rfl nofun sign
    have mem' : t.unreserved ∈ tokens .legacy (a ++ [':', '='] ++ b) :=
      same ▸ List.mem_map_of_mem mem
    obtain ⟨tile, rest, eq, -, piece⟩ := exists_tile_of_mem mem'
    have kind' : tile.kind = .assign := by
      rw [← Token.kind_ofChars tile.kind tile.piece]
      show tile.token.kind = _
      rw [← eq, Token.unreserved, kind]
      rfl
    exact absurd (piece.of_assign kind').1 nofun
  · intro none
    have blanks (d : Dialect) (no : d.hasComments = false) (rest : List Char) :
        dropGap d false rest = rest.dropWhile isBlank := dropGap_eq_dropWhile (by simp [no])
    refine tokens_eq_map (fun rest _ => ?_) fun k piece rest behind h => ?_
    · rw [blanks .legacy rfl, blanks .standard rfl]
    · refine ⟨_, h.legacy ?_, rfl⟩
      intro hk
      rw [(h.of_assign hk).2] at behind
      exact none ((List.infix_append [] _ rest).trans behind.isInfix)

/-! ## With pairs, comments and fractions -/

/-- Somewhere in the text a dot stands between two digits. -/
def DotBetweenDigits (cs : List Char) : Prop :=
  ∃ a b, a.isDigit ∧ b.isDigit ∧ [a, '.', b] <:+: cs

theorem DotBetweenDigits.of_suffix (h : DotBetweenDigits b) (le : b <:+ cs) :
    DotBetweenDigits cs := by
  obtain ⟨c, c', digit, digit', inside⟩ := h
  exact ⟨c, c', digit, digit', inside.trans le.isInfix⟩

/-- A piece of the standard dialect is one of the extended dialect if no fraction is behind it. -/
theorem Piece.withPairs (h : Piece .standard k piece rest)
    (whole : ¬DotBetweenDigits (piece ++ rest)) :
    ∃ k', Piece .extended k' piece rest ∧
      Token.ofChars k' piece = (Token.ofChars k piece).withPairs := by
  have same (known : k ≠ .error) : Token.ofChars k piece = (Token.ofChars k piece).withPairs :=
    (Token.withPairs_of_ne_error known).symm
  cases h with
  | @mark c k h =>
    have table : ∀ m ∈ marks, m.2 ≠ .error := by decide
    exact ⟨k, .mark h rest, same (table _ h)⟩
  | assign => exact ⟨_, .assign rfl rest, same nofun⟩
  | colon h => exact ⟨_, .colon h, same nofun⟩
  | operator nonempty run =>
    refine ⟨_, .operator nonempty run, ?_⟩
    unfold operatorKind
    split
    -- The last case is all the runs that are no operator of the table.
    case h_11 => exact (Token.withPairs_of_error (by simpa using ⟨‹_›, ‹_›, ‹_›⟩)).symm
    all_goals decide
  | word start run =>
    refine ⟨_, .word start run, same fun hk => ?_⟩
    exact absurd (hk ▸ wordKind_mem .standard _) (by decide)
  | integer nonempty run =>
    refine ⟨_, .integer nonempty run ?_, same nofun⟩
    rintro ⟨-, c, more, rfl, digit⟩
    rcases List.eq_nil_or_concat piece with rfl | ⟨front, last, rfl⟩
    · exact nonempty rfl
    · exact whole ⟨last, c, run.all last (by simp), digit, front, more, by simp⟩
  | real has => cases has
  | other mark colon operator word digit =>
    refine ⟨_, .other mark colon operator word digit rest, ?_⟩
    exact (Token.withPairs_of_error (by simp)).symm

/-- **The tokens with pairs** are those with other labels if there are no comments and no
fractions. -/
theorem tokens_extended (brace : '{' ∉ cs) (dot : ¬DotBetweenDigits cs) :
    tokens .extended cs = (tokens .standard cs).map Token.withPairs := by
  refine tokens_eq_map (fun rest behind => ?_) fun k piece rest behind h => ?_
  · have brace' : '{' ∉ rest := fun mem => brace (behind.mem mem)
    rw [dropGap_eq_dropWhile fun _ => brace', dropGap_eq_dropWhile fun _ => brace']
  · exact h.withPairs fun between => dot (between.of_suffix behind)

end

end Lexis

open Lexis

/-- **What the dialects change in scanning.** The legacy dialect has the tokens of the standard
one, without the reserved words, exactly where no colon has an equals sign behind it. The extended
dialect has those of the standard one, with the pairs of operator characters, where there is no
brace and no dot between digits. -/
theorem tokenize_of_dialects (text : String) :
    (tokenize text .legacy = (tokenize text .standard).map Token.unreserved ↔
        ¬[':', '='] <:+: text.toList) ∧
      ('{' ∉ text.toList → ¬DotBetweenDigits text.toList →
        tokenize text .extended = (tokenize text .standard).map Token.withPairs) := by
  constructor
  · rw [← tokens_legacy_iff, tokenize, tokenize, List.map_append]
    exact List.append_left_inj _
  · intro brace dot
    have last : Token.endOfText.withPairs = Token.endOfText := rfl
    rw [tokenize, tokenize, tokens_extended brace dot, List.map_append, List.map_singleton, last]

/-- A relation in the extended dialect, an error in the others, and no fraction. -/
theorem tokenize_of_dialects_relation :
    let text := "while x<=.5 do <>="
    ('{' ∉ text.toList ∧ ¬DotBetweenDigits text.toList ∧
        tokenize text .extended = (tokenize text .standard).map Token.withPairs) ∧
      ¬[':', '='] <:+: text.toList ∧
        tokenize text .legacy = (tokenize text .standard).map Token.unreserved := by
  intro text
  have brace : '{' ∉ text.toList := by decide +kernel
  have dot : ¬DotBetweenDigits text.toList := by
    rintro ⟨a, b, digit, digit', inside⟩
    have only : text.toList.filter Char.isDigit = ['5'] := by decide +kernel
    have five {c : Char} (mem : c ∈ [a, '.', b]) (digit : c.isDigit) : c = '5' := by
      rw [← List.mem_singleton, ← only]
      exact List.mem_filter.2 ⟨inside.mem mem, digit⟩
    obtain rfl := five (by simp) digit
    obtain rfl := five (by simp) digit'
    exact absurd inside (by decide +kernel)
  have sign : ¬[':', '='] <:+: text.toList := by decide +kernel
  exact ⟨⟨brace, dot, (tokenize_of_dialects text).2 brace dot⟩, sign,
    (tokenize_of_dialects text).1.2 sign⟩

end MiniPascal
