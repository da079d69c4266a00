import MiniPascal.Lexis
import MiniPascal.Text.Bytes
import MiniPascal.Token

/-!
# Scanning

`scan?` reads one token from the front of a text and says what is left; `tokenize` reads them all.
A `Scanner` is a text with a place in it, from which tokens are pulled one at a time. Its place
only moves forward (`position_add_le_next`), and what is left is always an end of the text
(`rest_suffix`), so its position in bytes is a boundary between characters.

Scanning cannot fail: what is no token of the language is read as one of kind `error`.
-/

namespace MiniPascal

open Lexis

/-! ## One token -/

/-- The first token of a text and what is left behind it, or nothing if the text is all gap. -/
def scan? (d : Dialect) (cs : List Char) : Option (Token × List Char) :=
  match dropGap d false cs with
  | [] => none
  | c :: more =>
    let piece := c :: (munch d c more).1
    some (Token.ofChars (classify d piece) piece, (munch d c more).2)

/-- What is left behind a token is an end of the text, and at least one character shorter. -/
theorem scan?_suffix {d : Dialect} {cs rest : List Char} {t : Token}
    (h : scan? d cs = some (t, rest)) : rest <:+ cs ∧ rest.length < cs.length := by
  unfold scan? at h
  split at h
  · cases h
  · next c more hg =>
    cases h
    have hs : c :: more <:+ cs := hg ▸ dropGap_suffix d false cs
    have hm := munch_suffix d c more
    refine ⟨hm.trans ((List.suffix_cons c more).trans hs), ?_⟩
    have := hs.length_le
    have := hm.length_le
    simp only [List.length_cons] at *
    omega

/-- No token that is read is the end of the text. -/
theorem isEnd_of_scan? {d : Dialect} {cs rest : List Char} {t : Token}
    (h : scan? d cs = some (t, rest)) : t.isEnd = false := by
  unfold scan? at h
  split at h
  · cases h
  · cases h
    simp [Token.isEnd, classify_ne_endOfText]

/-! ## All tokens -/

/-- The tokens of a text, without the one that stands for its end. -/
def tokens (d : Dialect) (cs : List Char) : List Token :=
  match _h : scan? d cs with
  | none => []
  | some (t, rest) => t :: tokens d rest
termination_by cs.length
decreasing_by exact (scan?_suffix _h).2

theorem tokens_of_none {d : Dialect} {cs : List Char} (h : scan? d cs = none) :
    tokens d cs = [] := by
  rw [tokens]
  split
  · rfl
  · next h' => rw [h] at h'; cases h'

theorem tokens_of_some {d : Dialect} {cs rest : List Char} {t : Token}
    (h : scan? d cs = some (t, rest)) : tokens d cs = t :: tokens d rest := by
  rw [tokens]
  split
  · next h' => rw [h] at h'; cases h'
  · next h' => rw [h] at h'; cases h'; rfl

/-- The end of a text is none of its tokens. -/
theorem endOfText_not_mem_tokens (d : Dialect) (cs : List Char) :
    .endOfText ∉ (tokens d cs).map Token.kind := by
  fun_induction tokens d cs with
  | case1 => exact List.not_mem_nil
  | case2 _ t rest some ih =>
    rw [List.map_cons, List.mem_cons, not_or]
    refine ⟨?_, ih⟩
    intro he
    have := isEnd_of_scan? some
    simp [Token.isEnd, ← he] at this

/-- The tokens of a text, and the one that stands for its end. -/
def tokenize (text : String) (d : Dialect) : List Token :=
  tokens d text.toList ++ [Token.endOfText]

/-! ## Pulling tokens -/

/-- One token and what is left behind it. At the end of the text that is the token for the end,
and the gap in front of the end is gone. -/
def pull (d : Dialect) (cs : List Char) : Token × List Char :=
  (scan? d cs).getD (Token.endOfText, [])

theorem pull_suffix (d : Dialect) (cs : List Char) : (pull d cs).2 <:+ cs := by
  unfold pull
  cases h : scan? d cs with
  | none => exact List.nil_suffix
  | some p => exact (scan?_suffix h).1

/-- A token that is not the end of the text makes what is left shorter. -/
theorem length_pull_add_le (d : Dialect) (cs : List Char) :
    (pull d cs).2.length + (if (pull d cs).1.isEnd then 0 else 1) ≤ cs.length := by
  unfold pull
  cases h : scan? d cs with
  | none => simp
  | some found => simpa [isEnd_of_scan? h] using Nat.succ_le_of_lt (scan?_suffix h).2

/-- A text and a place in it, given by what is left of the text. -/
structure Scanner where
  dialect : Dialect
  text : String
  rest : List Char
  rest_suffix : rest <:+ text.toList

namespace Scanner

/-- The scanner at the start of a text. -/
def ofText (text : String) (d : Dialect) : Scanner := ⟨d, text, text.toList, List.suffix_rfl⟩

instance : Inhabited Scanner := ⟨ofText "" default⟩

/-- The place in bytes from the start of the text. -/
def position (s : Scanner) : Nat := byteLength s.text.toList - byteLength s.rest

theorem position_add_byteLength_rest (s : Scanner) :
    s.position + byteLength s.rest = byteLength s.text.toList := by
  obtain ⟨front, h⟩ := s.rest_suffix
  simp [position, ← h]

/-- The next token, and the scanner behind it. -/
def next (s : Scanner) : Token × Scanner :=
  let found := pull s.dialect s.rest
  (found.1, { s with
    rest := found.2
    rest_suffix := (pull_suffix s.dialect s.rest).trans s.rest_suffix })

@[simp] theorem next_fst (s : Scanner) : s.next.1 = (pull s.dialect s.rest).1 := rfl

@[simp] theorem next_dialect (s : Scanner) : s.next.2.dialect = s.dialect := rfl

@[simp] theorem next_text (s : Scanner) : s.next.2.text = s.text := rfl

@[simp] theorem next_rest (s : Scanner) : s.next.2.rest = (pull s.dialect s.rest).2 := rfl

/-- What is read takes its bytes. -/
theorem position_add_length_le {s s' : Scanner} {read : List Char} (same : s'.text = s.text)
    (h : read ++ s'.rest = s.rest) : s.position + read.length ≤ s'.position := by
  have here := s.position_add_byteLength_rest
  have behind := s'.position_add_byteLength_rest
  have le := length_le_byteLength read
  rw [same] at behind
  rw [← h, byteLength_append] at here
  omega

/-- The scanner never moves back, and it moves on where it finds a token. -/
theorem position_add_le_next (s : Scanner) :
    s.position + (if s.next.1.isEnd then 0 else 1) ≤ s.next.2.position := by
  obtain ⟨read, h⟩ := pull_suffix s.dialect s.rest
  have moved : s.position + read.length ≤ s.next.2.position := position_add_length_le rfl h
  have shorter := length_pull_add_le s.dialect s.rest
  have lengths := congrArg List.length h
  rw [List.length_append] at lengths
  rw [next_fst]
  omega

/-- The next token, unless the text is at its end. The scanner moves in either case. -/
def next? (s : Scanner) : Option Token × Scanner :=
  (if s.next.1.isEnd then none else some s.next.1, s.next.2)

/-- The kind of the next token. -/
def peek (s : Scanner) : Kind := s.next.1.kind

/-- All the tokens that are left, and the scanner at the end of the text. -/
def collect (s : Scanner) : List Token × Scanner :=
  (tokens s.dialect s.rest, { s with rest := [], rest_suffix := List.nil_suffix })

/-- The next `n` tokens, or those that are left if they are fewer. Nothing is read behind the
last of `n` tokens. -/
def take : Nat → Scanner → List Token × Scanner
  | 0, s => ([], s)
  | n + 1, s =>
    match s.next? with
    | (none, s') => ([], s')
    | (some t, s') =>
      let more := take n s'
      (t :: more.1, more.2)

theorem take_succ_of_isEnd {s : Scanner} (n : Nat) (h : s.next.1.isEnd) :
    s.take (n + 1) = ([], s.next.2) := by rw [take, next?, if_pos h]

theorem take_succ {s : Scanner} (n : Nat) (h : ¬s.next.1.isEnd) :
    s.take (n + 1) = (s.next.1 :: (s.next.2.take n).1, (s.next.2.take n).2) := by
  rw [take, next?, if_neg h]

/-- The scanner at the start of another text. -/
def reset (s : Scanner) (text : String) : Scanner := ofText text s.dialect

end Scanner

end MiniPascal
