import MiniPascal.Proofs.Concatenation

/-!
# Slices of a text

A scanner holds what is left of its text. This module has one that holds the whole text and a place
in it, counted in bytes, and cuts out of the text whatever it looks at. Not everything can be cut
out: a slice that starts or ends inside of a character, or ends in front of its start, is none
(`isSome_slice?_iff`), and nothing goes on behind it.

* `Pull` — what a scanner can be asked for, and `Answer` what it gives.
* `Cursor` — a text and a place. All that it reads is `none` where a slice is out of range.
* `Cursor.before` — the cursor at the place where some end of the text starts.
* `Scanner.InText` — the place is in the text, between two characters.
* `Scanner.Moves` — where a pull may leave a scanner.

**Theorem (`Cursor.answer?_cursor`).** A cursor that stands where a scanner stands answers as the
scanner does, and stands there again.

Each way to read from a cursor has a lemma of this form, from the peek at a character up to a whole
run of pulls. With that `pulls_in_text` says that no slice is ever out of range.
-/

namespace MiniPascal

open Lexis

/-! ## Pulls -/

/-- Something that a scanner can be asked for. -/
inductive Pull where
  /-- The next token, also at the end of the text. -/
  | next
  /-- The next token, unless the text is at its end. -/
  | item
  /-- The kind of the next token. -/
  | peek
  /-- All tokens that are left. -/
  | collect
  /-- At most `n` of them. -/
  | take (n : Nat)
  /-- Another text. -/
  | reset (text : String)
  deriving DecidableEq, Repr

/-- What comes back. -/
inductive Answer where
  | token (t : Token)
  | item (t : Option Token)
  | kind (k : Kind)
  | tokens (ts : List Token)
  | done
  deriving DecidableEq, Repr

/-- The tokens that are handed over, without the one for the end of a text. -/
def Answer.delivered : Answer → List Token
  | token t => [t].filter (!·.isEnd)
  | item t => t.toList.filter (!·.isEnd)
  | tokens ts => ts.filter (!·.isEnd)
  | kind _ | done => []

namespace Answer

theorem length_delivered_token (t : Token) :
    (token t).delivered.length = if t.isEnd then 0 else 1 := by
  cases h : t.isEnd <;> simp [delivered, h]

theorem length_delivered_item (t : Token) :
    (item (if t.isEnd then none else some t)).delivered.length = if t.isEnd then 0 else 1 := by
  cases h : t.isEnd <;> simp [delivered, h]

theorem length_delivered_tokens_le (ts : List Token) :
    (tokens ts).delivered.length ≤ ts.length := List.length_filter_le _ _

end Answer

namespace Scanner

/-- The answer to a pull, and the scanner behind it. -/
def answer (s : Scanner) : Pull → Answer × Scanner
  | .next => (.token s.next.1, s.next.2)
  | .item => (.item s.next?.1, s.next?.2)
  | .peek => (.kind s.peek, s)
  | .collect => (.tokens s.collect.1, s.collect.2)
  | .take n => (.tokens (s.take n).1, (s.take n).2)
  | .reset text => (.done, s.reset text)

/-- The answers to some pulls, and the scanner behind them. -/
def follow (s : Scanner) : List Pull → List Answer × Scanner
  | [] => ([], s)
  | x :: xs => ((s.answer x).1 :: ((s.answer x).2.follow xs).1, ((s.answer x).2.follow xs).2)

end Scanner

/-! ## Cursors -/

/-- A text and a place in it, in bytes. It may be any place. -/
structure Cursor where
  dialect : Dialect
  text : String
  place : Nat

namespace Cursor

/-- The cursor at the start of a text. -/
def ofText (text : String) (d : Dialect) : Cursor := ⟨d, text, 0⟩

/-- What is left of the text. -/
def rest? (c : Cursor) : Option (List Char) :=
  slice? c.place (byteLength c.text.toList) c.text.toList

/-- The character that comes behind `n` others. -/
def peek? (c : Cursor) (n : Nat) : Option (Option Char) := c.rest?.map fun rest => rest[n]?

/-- The cursor behind a character. -/
def behind (c : Cursor) (ch : Char) : Cursor := { c with place := c.place + ch.utf8Size }

/-- The next character, and the cursor behind it. -/
def advance? (c : Cursor) : Option (Option Char × Cursor) :=
  (c.peek? 0).map fun
    | some ch => (some ch, c.behind ch)
    | none => (none, c)

/-- The bytes that are left. -/
def left (c : Cursor) : Nat := byteLength c.text.toList - c.place

/-- The cursor at the place where the end `rest` of a text starts. -/
def before (d : Dialect) (text : String) (rest : List Char) : Cursor :=
  ⟨d, text, byteLength text.toList - byteLength rest⟩

@[simp] theorem before_dialect (d : Dialect) (text : String) (rest : List Char) :
    (before d text rest).dialect = d := rfl

@[simp] theorem before_text (d : Dialect) (text : String) (rest : List Char) :
    (before d text rest).text = text := rfl

section

variable {d : Dialect} {text : String} {part rest rest' : List Char} {ch : Char} {c : Cursor}

/-- What lies between two ends of a text can be sliced. -/
theorem slice?_before (d : Dialect) (h : rest <:+ text.toList) (whole : part ++ rest' = rest) :
    slice? (before d text rest).place (before d text rest').place text.toList = some part := by
  obtain ⟨front, same⟩ := h
  subst whole
  refine slice?_eq_some_iff.2 ⟨front, rest', by rw [List.append_assoc, same], ?_, ?_⟩ <;>
    simp only [before, ← same, byteLength_append] <;> omega

theorem rest?_before (h : rest <:+ text.toList) : (before d text rest).rest? = some rest :=
  slice?_before d h (List.append_nil rest)

/-- A cursor that sees the rest of its text stands in front of it. -/
theorem eq_before (h : c.rest? = some rest) :
    ∃ d text, rest <:+ text.toList ∧ c = before d text rest := by
  obtain ⟨front, back, whole, start, stop⟩ := slice?_eq_some_iff.1 h
  rw [← whole, byteLength_append _ back] at stop
  obtain rfl : back = [] := byteLength_eq_zero_iff.1 (by omega)
  rw [List.append_nil] at whole
  refine ⟨c.dialect, c.text, ⟨front, whole⟩, ?_⟩
  have place : c.place = byteLength c.text.toList - byteLength rest := by
    rw [← whole, byteLength_append]
    omega
  rw [before, ← place]

/-- A cursor inside of a character sees nothing. -/
example : (⟨.standard, "é:=", 1⟩ : Cursor).rest? = none ∧
    (⟨.standard, "é:=", 2⟩ : Cursor).rest? = some [':', '='] := by decide +kernel

theorem left_before (h : rest <:+ text.toList) : (before d text rest).left = byteLength rest := by
  obtain ⟨front, whole⟩ := h
  simp only [left, before, ← whole, byteLength_append]
  omega

/-! ### One character after the other -/

theorem peek?_before (h : rest <:+ text.toList) (n : Nat) :
    (before d text rest).peek? n = some rest[n]? := by rw [peek?, rest?_before h, Option.map_some]

theorem behind_before (h : ch :: rest <:+ text.toList) :
    (before d text (ch :: rest)).behind ch = before d text rest := by
  obtain ⟨front, whole⟩ := h
  have place : byteLength text.toList - byteLength (ch :: rest) + ch.utf8Size =
      byteLength text.toList - byteLength rest := by
    simp only [← whole, byteLength_append, byteLength_cons]
    omega
  simp only [behind, before, place]

theorem advance?_before (h : rest <:+ text.toList) :
    (before d text rest).advance? = some (rest.head?, before d text rest.tail) := by
  rw [advance?, peek?_before h, Option.map_some]
  cases rest with
  | nil => rfl
  | cons ch rest => exact congrArg (fun c => some (some ch, c)) (behind_before h)

theorem eq_before_cons (h : c.peek? 0 = some (some ch)) :
    ∃ d text more, ch :: more <:+ text.toList ∧ c = before d text (ch :: more) := by
  obtain ⟨rest, seen, first⟩ := Option.map_eq_some_iff.1 h
  obtain ⟨d, text, fits, stands⟩ := eq_before seen
  cases rest with
  | nil => cases first
  | cons ch' more =>
    obtain rfl := Option.some.inj first
    exact ⟨d, text, more, fits, stands⟩

theorem left_behind_lt (h : c.peek? 0 = some (some ch)) : (c.behind ch).left < c.left := by
  obtain ⟨d, text, more, fits, rfl⟩ := eq_before_cons h
  have pos := ch.utf8Size_pos
  rw [behind_before fits, left_before fits, left_before ((List.suffix_cons ch more).trans fits),
    byteLength_cons]
  omega

end

/-! ### Runs and gaps -/

/-- The cursor behind the characters of a class, as many as there are. -/
def eatWhile? (p : Char → Bool) (c : Cursor) : Option Cursor :=
  match _seen : c.peek? 0 with
  | none => none
  | some none => some c
  | some (some ch) => if p ch then (c.behind ch).eatWhile? p else some c
termination_by c.left
decreasing_by exact left_behind_lt _seen

/-- The cursor behind the comment that it stands in front of. -/
def skipComment? (c : Cursor) : Option Cursor :=
  (c.eatWhile? (· != '}')).bind fun c => c.advance?.map Prod.snd

section

variable {d : Dialect} {text : String} {rest : List Char} {c c' : Cursor} {ch : Char}

theorem eatWhile?_end (p : Char → Bool) (seen : c.peek? 0 = some none) :
    c.eatWhile? p = some c := by
  rw [eatWhile?]
  split
  · next h => rw [seen] at h; cases h
  · rfl
  · next h => rw [seen] at h; cases h

theorem eatWhile?_cons (p : Char → Bool) (seen : c.peek? 0 = some (some ch)) :
    c.eatWhile? p = if p ch then (c.behind ch).eatWhile? p else some c := by
  rw [eatWhile?]
  split
  · next h => rw [seen] at h; cases h
  · next h => rw [seen] at h; cases h
  · next h => rw [seen] at h; cases h; rfl

theorem eatWhile?_before (p : Char → Bool) (h : rest <:+ text.toList) :
    (before d text rest).eatWhile? p = some (before d text (rest.dropWhile p)) := by
  induction rest with
  | nil => exact eatWhile?_end p (peek?_before h 0)
  | cons ch rest ih =>
    rw [eatWhile?_cons p (peek?_before h 0), behind_before h, List.dropWhile_cons,
      ih ((List.suffix_cons ch rest).trans h)]
    split <;> rfl

theorem skipComment?_before (h : rest <:+ text.toList) :
    (before d text rest).skipComment? =
      some (before d text ((rest.dropWhile (· != '}')).drop 1)) := by
  have fits := (List.dropWhile_suffix (· != '}')).trans h
  rw [skipComment?, eatWhile?_before _ h, Option.bind_some, advance?_before fits, List.drop_one]
  rfl

/-- The text behind a comment is shorter than the one in front of it. -/
theorem behindComment_suffix (more : List Char) :
    (('{' :: more).dropWhile (· != '}')).drop 1 <:+ more :=
  (List.drop_suffix 1 _).trans (List.dropWhile_suffix (l := more) _)

theorem left_skipComment?_lt (seen : c.peek? 0 = some (some '{')) (h : c.skipComment? = some c') :
    c'.left < c.left := by
  obtain ⟨d, text, more, fits, rfl⟩ := eq_before_cons seen
  have shorter := behindComment_suffix more
  have fits' := shorter.trans ((List.suffix_cons '{' more).trans fits)
  rw [skipComment?_before fits] at h
  obtain rfl := Option.some.inj h
  rw [left_before fits, left_before fits', byteLength_cons]
  have := byteLength_le_of_suffix shorter
  have := '{'.utf8Size_pos
  omega

end

/-- The cursor behind the gap that it stands in front of. -/
def skipGap? (c : Cursor) : Option Cursor :=
  match _seen : c.peek? 0 with
  | none => none
  | some none => some c
  | some (some ch) =>
    if isBlank ch then (c.behind ch).skipGap?
    else if _brace : ch = '{' ∧ c.dialect.hasComments then
      match _skipped : c.skipComment? with
      | none => none
      | some c' => c'.skipGap?
    else some c
termination_by c.left
decreasing_by
  · exact left_behind_lt _seen
  · exact left_skipComment?_lt (_brace.1 ▸ _seen) _skipped

section

variable {d : Dialect} {text : String} {rest : List Char} {c c' : Cursor} {ch : Char}

theorem skipGap?_none (out : c.rest? = none) : c.skipGap? = none := by
  have seen : c.peek? 0 = none := by rw [peek?, out, Option.map_none]
  rw [skipGap?]
  split
  · rfl
  · next h => rw [seen] at h; cases h
  · next h => rw [seen] at h; cases h

theorem skipGap?_end (seen : c.peek? 0 = some none) : c.skipGap? = some c := by
  rw [skipGap?]
  split
  · next h => rw [seen] at h; cases h
  · rfl
  · next h => rw [seen] at h; cases h

theorem skipGap?_cons (seen : c.peek? 0 = some (some ch)) :
    c.skipGap? = if isBlank ch then (c.behind ch).skipGap?
      else if ch = '{' ∧ c.dialect.hasComments then c.skipComment?.bind skipGap? else some c := by
  rw [skipGap?]
  split
  · next h => rw [seen] at h; cases h
  · next h => rw [seen] at h; cases h
  · next h =>
    rw [seen] at h
    cases h
    by_cases blank : isBlank ch
    · rw [if_pos blank, if_pos blank]
    rw [if_neg blank, if_neg blank]
    by_cases brace : ch = '{' ∧ c.dialect.hasComments
    · rw [dif_pos brace, if_pos brace]
      split
      · next skipped => rw [skipped, Option.bind_none]
      · next skipped => rw [skipped, Option.bind_some]
    · rw [dif_neg brace, if_neg brace]

theorem skipGap?_before (h : rest <:+ text.toList) :
    (before d text rest).skipGap? = some (before d text (dropGap d false rest)) := by
  induction hn : rest.length using Nat.strongRecOn generalizing rest with
  | _ n ih =>
  cases rest with
  | nil => exact skipGap?_end (peek?_before h 0)
  | cons ch rest =>
    have later := (List.suffix_cons ch rest).trans h
    rw [skipGap?_cons (peek?_before h 0), behind_before h]
    by_cases blank : isBlank ch
    · rw [if_pos blank, ih _ (hn ▸ Nat.lt_succ_self _) later rfl]
      simp [dropGap, blank]
    rw [if_neg blank]
    rw [before_dialect]
    by_cases brace : ch = '{' ∧ d.hasComments
    · have behind := behindComment_suffix rest
      have shorter : _ < (ch :: rest).length := Nat.lt_succ_of_le behind.length_le
      rw [hn] at shorter
      obtain ⟨rfl, has⟩ := brace
      rw [if_pos ⟨rfl, has⟩, skipComment?_before h, Option.bind_some,
        ih _ shorter (behind.trans later) rfl, dropGap_brace has, dropGap_true]
      rfl
    · rw [if_neg brace]
      simp [dropGap, blank, brace]

end

/-! ### Tokens -/

/-- A colon or an assignment sign. The cursor stands behind the colon. -/
def colon? (c : Cursor) : Option (Kind × Cursor) := do
  if c.dialect.hasAssign then
    if (← c.peek? 0) = some '=' then
      let (_, c) ← c.advance?
      return (.assign, c)
    else return (.colon, c)
  else return (.colon, c)

/-- Whether a fraction follows. -/
def fraction? (c : Cursor) : Option Bool := do
  if c.dialect.hasRealLiterals then
    if (← c.peek? 0) = some '.' then return (← c.peek? 1).any Char.isDigit
    else return false
  else return false

/-- A number. The cursor stands behind its first digit. -/
def number? (c : Cursor) : Option (Kind × Cursor) := do
  let c ← c.eatWhile? Char.isDigit
  if ← c.fraction? then
    let (_, c) ← c.advance?
    let c ← c.eatWhile? Char.isDigit
    return (.realLiteral, c)
  else return (.integerLiteral, c)

/-- The kind of a piece, and the cursor behind it. The piece starts with the character `ch` at the
place `start`, and this cursor stands behind the character. -/
def piece? (c : Cursor) (start : Nat) (ch : Char) : Option (Kind × Cursor) := do
  if isOperatorChar ch then
    let c ← c.eatWhile? isOperatorChar
    let signs ← slice? start c.place c.text.toList
    return (operatorKind c.dialect signs, c)
  else if isWordStart ch then
    let c ← c.eatWhile? isWordChar
    let word ← slice? start c.place c.text.toList
    return (wordKind c.dialect word, c)
  else if ch.isDigit then c.number?
  else if ch = ':' then c.colon?
  else return (singleKind ch, c)

/-- A token, whose lexeme is cut where the first character starts that has no place in it. -/
def token? (kind : Kind) (piece : List Char) : Option Token := do
  if Token.maxLexeme < piece.length then
    let kept ← slice? 0 (byteLength (piece.take Token.maxLexeme)) piece
    return ⟨kind, String.ofList kept⟩
  else return ⟨kind, String.ofList piece⟩

/-- The next token, and the cursor behind it. -/
def next? (c : Cursor) : Option (Token × Cursor) := do
  let c ← c.skipGap?
  match ← c.advance? with
  | (none, c') => return (Token.endOfText, c')
  | (some ch, c') =>
    let (kind, c'') ← c'.piece? c.place ch
    let piece ← slice? c.place c''.place c''.text.toList
    let token ← token? kind piece
    return (token, c'')

section

variable {d : Dialect} {text : String} {rest : List Char} {c c' : Cursor} {ch : Char}

theorem colon?_before (h : rest <:+ text.toList) :
    (before d text rest).colon? =
      some (classify d (':' :: (munchColon d rest).1), before d text (munchColon d rest).2) := by
  rw [classify_colon]
  unfold colon? munchColon
  by_cases has : d.hasAssign
  · simp only [before_dialect, has, if_true, peek?_before h, advance?_before h,
      Option.bind_eq_bind, Option.bind_some, Option.pure_def]
    cases rest with
    | nil => rfl
    | cons ch rest => by_cases hc : ch = '=' <;> simp [hc]
  · simp only [before_dialect, has]
    cases rest with
    | nil => rfl
    | cons ch rest => by_cases hc : ch = '=' <;> simp [hc]

theorem fraction?_before (h : rest <:+ text.toList) :
    ∃ real, (before d text rest).fraction? = some real ∧
      (real ↔ d.hasRealLiterals ∧ StartsFraction rest) := by
  unfold fraction? StartsFraction
  by_cases has : d.hasRealLiterals
  · simp only [before_dialect, has, if_true, peek?_before h,
      Option.bind_eq_bind, Option.bind_some, Option.pure_def]
    match rest with
    | [] => simp
    | [ch] => by_cases hc : ch = '.' <;> simp [hc]
    | ch :: ch' :: rest => by_cases hc : ch = '.' <;> simp [hc]
  · simp [has]

theorem number?_before (h : rest <:+ text.toList) (hc : ch.isDigit) :
    (before d text rest).number? =
      some (classify d (ch :: (munchNumber d rest).1), before d text (munchNumber d rest).2) := by
  have run := (run_takeWhile Char.isDigit rest).cons hc
  have fits := (List.dropWhile_suffix Char.isDigit).trans h
  obtain ⟨real, reads, iff⟩ := fraction?_before (d := d) fits
  unfold number?
  simp only [eatWhile?_before _ h, reads, Option.bind_eq_bind, Option.bind_some, Option.pure_def]
  by_cases hr : real
  · obtain ⟨has, ch', more, behind, digit⟩ := iff.1 hr
    rw [behind] at fits
    have fits' := (List.suffix_cons '.' (ch' :: more)).trans fits
    simp only [hr, if_true, behind, advance?_before fits, List.tail_cons, Option.bind_some,
      eatWhile?_before _ fits', munchNumber_of_fraction has behind digit, classify_of_fraction hc,
      List.dropWhile_cons_of_pos digit]
  · have whole := mt iff.2 hr
    simp only [hr, munchNumber_of_whole whole, classify_of_digits run.all]
    rfl

theorem piece?_before (h : ch :: rest <:+ text.toList) :
    (before d text rest).piece? (before d text (ch :: rest)).place ch =
      some (classify d (ch :: (munch d ch rest).1), before d text (munch d ch rest).2) := by
  have fits := (List.suffix_cons ch rest).trans h
  have cut (p : Char → Bool) : slice? (before d text (ch :: rest)).place
      (before d text (rest.dropWhile p)).place text.toList = some (ch :: rest.takeWhile p) :=
    slice?_before d h (congrArg (ch :: ·) List.takeWhile_append_dropWhile)
  unfold piece?
  by_cases operator : isOperatorChar ch
  · simp only [operator, if_true, eatWhile?_before _ fits, Option.bind_eq_bind, Option.bind_some,
      before_text, cut, munch_operator operator, classify_operator operator]
    rfl
  by_cases word : isWordStart ch
  · simp only [operator, word, if_true, eatWhile?_before _ fits, Option.bind_eq_bind,
      Option.bind_some, before_text, cut, munch_word word, classify_word word]
    rfl
  by_cases digit : ch.isDigit
  · simp [operator, word, digit, number?_before fits digit, munch_digit digit]
  by_cases colon : ch = ':'
  · subst colon
    simp [operator, word, digit, colon?_before fits, munch_colon]
  · rw [munch_other colon operator word digit, classify_other colon operator word digit]
    simp [operator, word, digit, colon]

theorem token?_eq (kind : Kind) (piece : List Char) :
    token? kind piece = some (Token.ofChars kind piece) := by
  have cut : slice? 0 (byteLength (piece.take Token.maxLexeme)) piece =
      some (piece.take Token.maxLexeme) :=
    slice?_eq_some_iff.2 ⟨[], piece.drop Token.maxLexeme, by simp, rfl, rfl⟩
  unfold token?
  by_cases long : Token.maxLexeme < piece.length
  · simp [long, cut, Token.ofChars]
  · simp [long, Token.ofChars, List.take_of_length_le (Nat.le_of_not_lt long)]

/-- **A cursor gives the tokens of a text**, and cuts nothing out of it that is out of range. -/
theorem next?_before (h : rest <:+ text.toList) :
    (before d text rest).next? = some ((pull d rest).1, before d text (pull d rest).2) := by
  have fits := (dropGap_suffix d false rest).trans h
  unfold next? pull scan?
  simp only [skipGap?_before h, advance?_before fits, Option.bind_eq_bind, Option.bind_some]
  cases found : dropGap d false rest with
  | nil => rfl
  | cons ch more =>
    rw [found] at fits
    have whole : ch :: (munch d ch more).1 ++ (munch d ch more).2 = ch :: more :=
      congrArg (ch :: ·) (munch_append d ch more)
    have cut := slice?_before d fits whole
    simp only [List.head?_cons, List.tail_cons, piece?_before fits, Option.bind_some, before_text,
      cut, token?_eq]
    rfl

theorem left_next?_lt {t : Token} (h : c.next? = some (t, c')) (found : ¬t.isEnd) :
    c'.left < c.left := by
  cases seen : c.rest? with
  | none =>
    rw [next?, skipGap?_none seen] at h
    cases h
  | some rest =>
    obtain ⟨d, text, fits, rfl⟩ := eq_before seen
    rw [next?_before fits] at h
    obtain ⟨rfl, rfl⟩ := Prod.mk.inj (Option.some.inj h)
    obtain ⟨read, whole⟩ := pull_suffix d rest
    have shorter := length_pull_add_le d rest
    rw [left_before fits, left_before ((pull_suffix d rest).trans fits)]
    have lengths := congrArg List.length whole
    have bytes := congrArg byteLength whole
    have le := length_le_byteLength read
    rw [List.length_append] at lengths
    rw [byteLength_append] at bytes
    rw [if_neg found] at shorter
    omega

end

/-! ### Pulls -/

/-- All the tokens that are left, and the cursor at the end of the text. -/
def collect? (c : Cursor) : Option (List Token × Cursor) :=
  match _scanned : c.next? with
  | none => none
  | some (t, c') =>
    if _ends : t.isEnd then some ([], c')
    else c'.collect?.map fun more => (t :: more.1, more.2)
termination_by c.left
decreasing_by exact left_next?_lt _scanned _ends

/-- The next `n` tokens, or those that are left if they are fewer. -/
def take? : Nat → Cursor → Option (List Token × Cursor)
  | 0, c => some ([], c)
  | n + 1, c => do
    let (t, c') ← c.next?
    if t.isEnd then return ([], c')
    else
      let (more, c'') ← take? n c'
      return (t :: more, c'')

/-- The answer to a pull, and the cursor behind it. -/
def answer? (c : Cursor) : Pull → Option (Answer × Cursor)
  | .next => c.next?.map fun (t, c') => (.token t, c')
  | .item => c.next?.map fun (t, c') => (.item (if t.isEnd then none else some t), c')
  | .peek => c.next?.map fun (t, _) => (.kind t.kind, c)
  | .collect => c.collect?.map fun (ts, c') => (.tokens ts, c')
  | .take n => (c.take? n).map fun (ts, c') => (.tokens ts, c')
  | .reset text => some (.done, ofText text c.dialect)

/-- The answers to some pulls, and the cursor behind them. -/
def follow? (c : Cursor) : List Pull → Option (List Answer × Cursor)
  | [] => some ([], c)
  | x :: xs => do
    let (a, c') ← c.answer? x
    let (more, c'') ← c'.follow? xs
    return (a :: more, c'')

theorem collect?_of_next? {c c' : Cursor} {t : Token} (h : c.next? = some (t, c')) :
    c.collect? =
      if t.isEnd then some ([], c') else c'.collect?.map fun more => (t :: more.1, more.2) := by
  rw [collect?]
  split
  · next h' => rw [h] at h'; cases h'
  · next h' =>
    rw [h] at h'
    cases h'
    split <;> rfl

theorem collect?_before {d : Dialect} {text : String} {rest : List Char}
    (h : rest <:+ text.toList) :
    (before d text rest).collect? = some (tokens d rest, before d text []) := by
  induction hn : rest.length using Nat.strongRecOn generalizing rest with
  | _ n ih =>
  rw [collect?_of_next? (next?_before h)]
  cases found : scan? d rest with
  | none =>
    rw [pull, found, tokens_of_none found]
    rfl
  | some first =>
    obtain ⟨t, rest'⟩ := first
    obtain ⟨behind, shorter⟩ := scan?_suffix found
    have token : ¬t.isEnd := by simp [isEnd_of_scan? found]
    rw [pull, found, tokens_of_some found, Option.getD_some, if_neg token,
      ih _ (hn ▸ shorter) (behind.trans h) rfl]
    rfl

end Cursor

/-- The cursor that stands where a scanner stands. -/
def Scanner.cursor (s : Scanner) : Cursor := ⟨s.dialect, s.text, s.position⟩

theorem Scanner.cursor_ofText (text : String) (d : Dialect) :
    (ofText text d).cursor = .ofText text d :=
  congrArg (Cursor.mk d text) (Nat.sub_self _)

namespace Cursor

theorem next?_cursor (s : Scanner) : s.cursor.next? = some (s.next.1, s.next.2.cursor) :=
  next?_before s.rest_suffix

theorem collect?_cursor (s : Scanner) :
    s.cursor.collect? = some (s.collect.1, s.collect.2.cursor) :=
  collect?_before s.rest_suffix

theorem take?_cursor (n : Nat) (s : Scanner) :
    s.cursor.take? n = some ((s.take n).1, (s.take n).2.cursor) := by
  induction n generalizing s with
  | zero => rfl
  | succ n ih =>
    rw [take?, next?_cursor, Option.bind_eq_bind, Option.bind_some]
    by_cases ends : s.next.1.isEnd
    · rw [Scanner.take_succ_of_isEnd n ends]
      exact if_pos ends
    · rw [Scanner.take_succ n ends]
      dsimp only
      rw [if_neg ends, ih]
      rfl

/-- **A cursor answers as the scanner does** that stands where it stands. -/
theorem answer?_cursor (s : Scanner) (x : Pull) :
    s.cursor.answer? x = some ((s.answer x).1, (s.answer x).2.cursor) := by
  cases x with
  | next | item | peek => rw [answer?, next?_cursor]; rfl
  | collect => rw [answer?, collect?_cursor]; rfl
  | take n => rw [answer?, take?_cursor]; rfl
  | reset text =>
    rw [answer?, Scanner.answer, Scanner.reset, Scanner.cursor_ofText]
    rfl

theorem follow?_cursor (s : Scanner) (xs : List Pull) :
    s.cursor.follow? xs = some ((s.follow xs).1, (s.follow xs).2.cursor) := by
  induction xs generalizing s with
  | nil => rfl
  | cons x xs ih => simp [follow?, Scanner.follow, answer?_cursor, ih]

end Cursor

/-! ## Places -/

/-- A token takes a character at least. -/
theorem length_tokens_le (d : Dialect) (cs : List Char) : (tokens d cs).length ≤ cs.length := by
  induction hn : cs.length using Nat.strongRecOn generalizing cs with
  | _ n ih =>
  cases found : scan? d cs with
  | none => simp [tokens_of_none found]
  | some first =>
    have shorter := (scan?_suffix found).2
    have later := ih _ (hn ▸ shorter) first.2 rfl
    rw [tokens_of_some found, List.length_cons]
    omega

namespace Scanner

theorem take_text (n : Nat) (s : Scanner) : (s.take n).2.text = s.text := by
  induction n generalizing s with
  | zero => rfl
  | succ n ih =>
    by_cases ends : s.next.1.isEnd
    · rw [take_succ_of_isEnd n ends, next_text]
    · rw [take_succ n ends, ih, next_text]

theorem position_add_take_le (n : Nat) (s : Scanner) :
    s.position + (s.take n).1.length ≤ (s.take n).2.position := by
  induction n generalizing s with
  | zero => exact Nat.le_refl _
  | succ n ih =>
    have moved := s.position_add_le_next
    by_cases ends : s.next.1.isEnd
    · rw [take_succ_of_isEnd n ends]
      exact Nat.le_of_add_right_le moved
    · rw [if_neg ends] at moved
      have later := ih s.next.2
      rw [take_succ n ends]
      dsimp only [List.length_cons]
      omega

theorem position_add_collect_le (s : Scanner) :
    s.position + s.collect.1.length ≤ s.collect.2.position := by
  have moved : s.position + s.rest.length ≤ s.collect.2.position :=
    position_add_length_le rfl (List.append_nil _)
  have few : s.collect.1.length ≤ s.rest.length := length_tokens_le s.dialect s.rest
  omega

/-- The place is in the text, on a boundary between two characters of its encoding. -/
structure InText (s : Scanner) : Prop where
  le_size : s.position ≤ s.text.utf8ByteSize
  boundary : (⟨s.position⟩ : String.Pos.Raw).IsValid s.text

theorem inText (s : Scanner) : s.InText := by
  have total := s.position_add_byteLength_rest
  obtain ⟨front, whole⟩ := s.rest_suffix
  refine ⟨?_, isValid_iff.2 ⟨front, s.rest, whole, ?_⟩⟩
  · rw [← byteLength_toList]
    omega
  · rw [← whole, byteLength_append] at total
    omega

/-- Where a pull leaves the scanner. That is at the start of another text or, in the same one, a
byte at least for every token that is handed over behind the old place. -/
def Moves (s : Scanner) (a : Answer) (s' : Scanner) : Pull → Prop
  | .reset text => s'.text = text ∧ s'.position = 0
  | _ => s'.text = s.text ∧ s.position + a.delivered.length ≤ s'.position

theorem moves_answer (s : Scanner) (x : Pull) : s.Moves (s.answer x).1 (s.answer x).2 x := by
  cases x with
  | next =>
    have moved := s.position_add_le_next
    rw [← Answer.length_delivered_token] at moved
    exact ⟨rfl, moved⟩
  | item =>
    have moved := s.position_add_le_next
    rw [← Answer.length_delivered_item] at moved
    exact ⟨rfl, moved⟩
  | peek => exact ⟨rfl, Nat.le_refl _⟩
  | collect =>
    have few := Answer.length_delivered_tokens_le s.collect.1
    exact ⟨rfl, Nat.le_trans (Nat.add_le_add_left few _) s.position_add_collect_le⟩
  | take n =>
    have few := Answer.length_delivered_tokens_le (s.take n).1
    exact ⟨take_text n s, Nat.le_trans (Nat.add_le_add_left few _) (s.position_add_take_le n)⟩
  | reset text => exact ⟨rfl, Nat.sub_self _⟩

end Scanner

/-- **No slice is out of range.** A cursor at the start of a text, cut out of the text at every
step, answers to whatever it is asked, and as the scanner does. Wherever that leaves it is a place
in the text, between two characters, and from there no pull moves it back but a reset, and each
token that it hands over moves it on. -/
theorem pulls_in_text (d : Dialect) (text : String) (xs : List Pull) (x : Pull) :
    let behind := (Scanner.ofText text d).follow xs
    let s := behind.2
    (Cursor.ofText text d).follow? xs = some (behind.1, s.cursor) ∧ s.InText ∧
      s.Moves (s.answer x).1 (s.answer x).2 x := by
  intro behind s
  refine ⟨?_, s.inText, s.moves_answer x⟩
  rw [← Scanner.cursor_ofText]
  exact Cursor.follow?_cursor _ xs

end MiniPascal
