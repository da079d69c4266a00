import MiniPascal.Proofs.Concatenation

/-!
# Lexemes that are scanned again

A lexeme is a text of its own. Scanned by itself it gives back its token, even where it was cut
short: words, operators and whole numbers are pieces of the same kind after the cut
(`Piece.take`). Only a real number can lose what makes it one. There is no digit behind the dot of
its lexeme if the integer part takes all places but one, and no dot if it takes that one too
(`scan?_of_longIntegerPart`).

**Theorem (`tokens_take_eq_iff`).** What is kept of a piece is scanned as the token of the piece,
unless the piece is a real number with a long integer part.

For the tokens of a text this is `tokenize_lexeme_iff`.
-/

namespace MiniPascal

/-- The digits in front of the dot of a number. -/
def integerPart (cs : List Char) : List Char := cs.takeWhile Char.isDigit

/-- The integer part has so many digits that a lexeme has no place for the dot and a digit. -/
def LongIntegerPart (cs : List Char) : Prop := 98 ≤ (integerPart cs).length

instance : DecidablePred LongIntegerPart := fun _ => inferInstanceAs (Decidable (98 ≤ _))

/-- That can be told from the characters that are kept. -/
theorem longIntegerPart_take (cs : List Char) :
    LongIntegerPart (cs.take Token.maxLexeme) ↔ LongIntegerPart cs := by
  have places : Token.maxLexeme = 99 := rfl
  rw [LongIntegerPart, LongIntegerPart, integerPart, ← List.take_takeWhile, List.length_take]
  show _ ↔ 98 ≤ (cs.takeWhile Char.isDigit).length
  omega

namespace Lexis

section

variable {d : Dialect} {k : Kind} {inside : Bool} {cs piece rest : List Char}

/-! ## Pieces cut short -/

/-- An operator that is cut short is an error, as it was. -/
theorem operatorKind_take (d : Dialect) (signs : List Char) :
    operatorKind d (signs.take Token.maxLexeme) = operatorKind d signs := by
  have error {signs : List Char} (h : 2 < signs.length) : operatorKind d signs = .error := by
    unfold operatorKind
    split <;> first | rfl | simp at h
  have places : Token.maxLexeme = 99 := rfl
  by_cases fits : signs.length ≤ Token.maxLexeme
  · rw [List.take_of_length_le fits]
  · have kept : (signs.take Token.maxLexeme).length = Token.maxLexeme :=
      List.length_take_of_le (by omega)
    rw [error (by omega), error (by omega)]

/-- A word that is cut short is an identifier, as it was. -/
theorem wordKind_take (d : Dialect) (word : List Char) :
    wordKind d (word.take Token.maxLexeme) = wordKind d word := by
  -- No reserved word has more than nine letters.
  have identifier {word : List Char} (h : 9 < word.length) : wordKind d word = .identifier := by
    unfold wordKind
    split
    · next entry k found =>
      have table : ∀ entry ∈ reservedWords, entry.1.toList.length ≤ 9 := by decide +kernel
      have short := table _ (List.mem_of_find?_eq_some found)
      have same := List.find?_some found
      rw [beq_iff_eq.1 same] at short
      omega
    · rfl
  have places : Token.maxLexeme = 99 := rfl
  by_cases fits : word.length ≤ Token.maxLexeme
  · rw [List.take_of_length_le fits]
  · have kept : (word.take Token.maxLexeme).length = Token.maxLexeme :=
      List.length_take_of_le (by omega)
    rw [identifier (by omega), identifier (by omega)]

theorem Run.take {p : Char → Bool} {run : List Char} (h : Run p run rest) (n : Nat) :
    Run p (run.take n) [] :=
  ⟨fun c hc => h.all c (List.mem_of_mem_take hc), nofun⟩

/-- **A piece that is cut short is a piece of the same kind**, unless it is a real number with a
long integer part. -/
theorem Piece.take (h : Piece d k piece rest)
    (short : ¬(k = .realLiteral ∧ LongIntegerPart piece)) :
    Piece d k (piece.take Token.maxLexeme) [] := by
  have places : Token.maxLexeme = 98 + 1 := rfl
  cases h with
  | mark h => exact .mark h []
  | assign has => exact .assign has []
  | colon => exact .colon nofun
  | operator nonempty run =>
    rw [← operatorKind_take]
    exact .operator (by simpa [places] using nonempty) (run.take _)
  | @word c more _ start run =>
    rw [← wordKind_take]
    exact .word start (run.take Token.maxLexeme)
  | integer nonempty run =>
    exact .integer (by simpa [places] using nonempty) (run.take _) nofun
  | @real digits fraction _ has nonempty all nonempty' run =>
    have first : Run Char.isDigit digits ('.' :: fraction) :=
      ⟨all, fun c hc => by cases hc; decide⟩
    have few : digits.length < 98 := by
      simpa [LongIntegerPart, integerPart, first.takeWhile_append] using short
    obtain ⟨m, hm⟩ : ∃ m, Token.maxLexeme - digits.length = m + 1 + 1 :=
      ⟨97 - digits.length, by omega⟩
    rw [List.take_append, List.take_of_length_le (by omega), hm, List.take_succ_cons]
    exact .real has nonempty all (by simpa using nonempty') (run.take _)
  | other mark colon operator word digit => exact .other mark colon operator word digit []

/-- A piece that is a real number is digits, a dot and digits. -/
theorem Piece.exists_real (h : Piece d k piece rest) (hk : k = .realLiteral) :
    ∃ digits fraction, digits ≠ [] ∧ (∀ c ∈ digits, c.isDigit) ∧
      piece = digits ++ '.' :: fraction := by
  cases h with
  | mark h =>
    have table : ∀ m ∈ marks, m.2 ≠ .realLiteral := by decide
    exact absurd hk (table _ h)
  | operator => exact absurd (hk ▸ operatorKind_mem d piece) (by decide)
  | word => exact absurd (hk ▸ wordKind_mem d _) (by decide)
  | @real digits fraction _ _ nonempty all => exact ⟨digits, fraction, nonempty, all, rfl⟩
  | _ => cases hk

/-- A real number with a long integer part is cut behind its dot or in front of it, and what is
kept of it starts with a whole number. -/
theorem scan?_of_longIntegerPart {digits fraction : List Char} (nonempty : digits ≠ [])
    (all : ∀ c ∈ digits, c.isDigit) (long : LongIntegerPart (digits ++ '.' :: fraction))
    (gap : dropGap d false ((digits ++ '.' :: fraction).take Token.maxLexeme) =
      (digits ++ '.' :: fraction).take Token.maxLexeme) :
    ∃ whole rest', scan? d ((digits ++ '.' :: fraction).take Token.maxLexeme) =
      some (Token.ofChars .integerLiteral whole, rest') := by
  have places : Token.maxLexeme = 99 := rfl
  have first : Run Char.isDigit digits ('.' :: fraction) :=
    ⟨all, fun c hc => by cases hc; decide⟩
  have many : 98 ≤ digits.length := by
    simpa [LongIntegerPart, integerPart, first.takeWhile_append] using long
  have cut : ('.' :: fraction).take (Token.maxLexeme - digits.length) = [] ∨
      ('.' :: fraction).take (Token.maxLexeme - digits.length) = ['.'] := by
    rcases Nat.le_one_iff_eq_zero_or_eq_one.1 (by omega : Token.maxLexeme - digits.length ≤ 1)
      with none | one
    · exact .inl (by rw [none, List.take_zero])
    · exact .inr (by rw [one, List.take_succ_cons, List.take_zero])
  rw [List.take_append] at gap ⊢
  generalize ('.' :: fraction).take (Token.maxLexeme - digits.length) = behind at cut gap ⊢
  refine ⟨_, behind, scan?_of_piece gap (.integer ?_ ?_ ?_)⟩
  · simpa [places] using nonempty
  · refine ⟨(first.take _).all, ?_⟩
    rcases cut with rfl | rfl
    · nofun
    · exact fun c hc => by cases hc; decide
  · rintro ⟨-, c, more, starts, -⟩
    rcases cut with rfl | rfl <;> cases starts

/-! ## Pieces as texts -/

/-- What no gap starts with is found behind no gap, whatever follows it. -/
theorem dropGap_cons_of_dropGap {c : Char} {more : List Char}
    (h : dropGap d inside cs = c :: more) (more' : List Char) :
    dropGap d false (c :: more') = c :: more' := by
  fun_induction dropGap d inside cs with
  | case1 => cases h
  | case2 c' more ih => exact ih h
  | case3 inside c' more no blank ih => exact ih h
  | case4 inside c' more no blank brace ih => exact ih h
  | case5 inside c' more no blank brace =>
    obtain ⟨rfl, rfl⟩ := List.cons.inj h
    simp [dropGap, blank, brace]

/-- A text of one piece has one token. -/
theorem tokens_of_piece (h : Piece d k piece []) (gap : dropGap d false piece = piece) :
    tokens d piece = [Token.ofChars k piece] := by
  have found := scan?_of_piece (gap.trans (List.append_nil piece).symm) h
  rw [tokens_of_some found, tokens_of_none rfl]

/-- **What is kept of a piece is scanned as the token of the piece**, unless the piece is a real
number with a long integer part. -/
theorem tokens_take_eq_iff (h : Piece d k piece rest) (gap : dropGap d inside cs = piece ++ rest) :
    tokens d (piece.take Token.maxLexeme) = [Token.ofChars k piece] ↔
      ¬(k = .realLiteral ∧ LongIntegerPart piece) := by
  have gap' : dropGap d false (piece.take Token.maxLexeme) = piece.take Token.maxLexeme := by
    obtain ⟨c, more, rfl, -⟩ := h.munch_eq
    exact dropGap_cons_of_dropGap gap (more.take 98)
  constructor
  · rintro same ⟨hk, long⟩
    obtain ⟨digits, fraction, nonempty, all, rfl⟩ := h.exists_real hk
    obtain ⟨whole, rest', found⟩ := scan?_of_longIntegerPart nonempty all long gap'
    rw [tokens_of_some found, hk] at same
    exact absurd (congrArg Token.kind (List.cons.inj same).1) (by simp)
  · intro short
    rw [tokens_of_piece (h.take short) gap']
    simp [Token.ofChars, List.take_take]

end

end Lexis

open Lexis

/-- **Lexemes are scanned again as what they are.** Scanned by itself, the lexeme of a token gives
that token and nothing else, whether it was cut short or not, unless the token is a real number
with a long integer part. -/
theorem tokenize_lexeme_iff {text : String} {d : Dialect} {t : Token} (mem : t ∈ tokenize text d)
    (notEnd : t.kind ≠ .endOfText) :
    tokenize t.lexeme d = [t, Token.endOfText] ↔
      ¬(t.kind = .realLiteral ∧ LongIntegerPart t.lexeme.toList) := by
  have mem : t ∈ tokens d text.toList := by
    rcases List.mem_append.1 mem with mem | last
    · exact mem
    · rw [List.mem_singleton.1 last] at notEnd
      exact absurd rfl notEnd
  obtain ⟨tile, rest, rfl, gap, piece⟩ := exists_tile_of_mem mem
  have scanned : tokenize tile.token.lexeme d = [tile.token, Token.endOfText] ↔
      tokens d (tile.piece.take Token.maxLexeme) = [tile.token] := by
    rw [tokenize, Tile.token, Token.toList_lexeme_ofChars]
    show _ ++ [Token.endOfText] = [_] ++ [Token.endOfText] ↔ _
    exact List.append_left_inj _
  rw [scanned, Tile.token, tokens_take_eq_iff piece gap.dropGap_eq, Token.toList_lexeme_ofChars,
    longIntegerPart_take, Token.kind_ofChars]

/-- A number with 98 digits in front of its dot is scanned again as a whole number and a dot, a
number with 97 as what it is. -/
theorem tokenize_lexeme_iff_number :
    let digits (n : Nat) := String.ofList (List.replicate n '7')
    let long : Token := ⟨.realLiteral, digits 98 ++ "."⟩
    let short : Token := ⟨.realLiteral, digits 97 ++ ".2"⟩
    (long ∈ tokenize (digits 98 ++ ".25") .extended ∧ long.kind ≠ .endOfText ∧
        tokenize long.lexeme .extended ≠ [long, Token.endOfText]) ∧
      short ∈ tokenize (digits 97 ++ ".25") .extended ∧ short.kind ≠ .endOfText ∧
        tokenize short.lexeme .extended = [short, Token.endOfText] := by
  intro digits long short
  have memLong : long ∈ tokenize (digits 98 ++ ".25") .extended := by decide +kernel
  have memShort : short ∈ tokenize (digits 97 ++ ".25") .extended := by decide +kernel
  refine ⟨⟨memLong, nofun, ?_⟩, memShort, nofun, ?_⟩
  · intro same
    exact (tokenize_lexeme_iff memLong nofun).1 same ⟨rfl, by decide +kernel⟩
  · exact (tokenize_lexeme_iff memShort nofun).2 fun h => absurd h.2 (by decide +kernel)

end MiniPascal
