import MiniPascal.Dialect
import MiniPascal.Kind

/-!
# The lexical grammar

A text is a gap, a piece, a gap, and so on to a last gap. A gap is made of blanks and, where the
dialect has them, comments. A piece is what one token is read from.

- `dropGap` skips the gap at the front of a text.
- `munch` cuts the text behind a piece's first character into the rest of the piece and what
  follows it. Pieces are as long as they can be.
- `classify` tells the kind of a whole piece.

No character is lost: `munch_append` and `dropGap_suffix`. No piece is the end of a text:
`classify_ne_endOfText`.
-/

namespace MiniPascal.Lexis

/-! ## Characters -/

/-- The characters that may stand between tokens. -/
def blanks : List Char := [' ', '\t', '\n', '\r', '\x0b', '\x0c']

def isBlank (c : Char) : Bool := blanks.contains c

/-- The characters that operators are made of. -/
def operatorChars : List Char := ['+', '-', '*', '/', '=', '<', '>']

def isOperatorChar (c : Char) : Bool := operatorChars.contains c

/-- A word starts with a letter of the ASCII alphabet or an underscore. -/
def isWordStart (c : Char) : Bool := c.isAlpha || c == '_'

/-- A word goes on with letters, digits and underscores. -/
def isWordChar (c : Char) : Bool := c.isAlphanum || c == '_'

/-! ## Kinds of pieces -/

/-- The words that are not identifiers in a dialect that reserves them all. -/
def reservedWords : List (String × Kind) :=
  [("program", .kwProgram), ("var", .kwVar), ("integer", .kwInteger), ("real", .kwReal),
    ("boolean", .kwBoolean), ("procedure", .kwProcedure), ("begin", .kwBegin), ("end", .kwEnd),
    ("if", .kwIf), ("then", .kwThen), ("else", .kwElse), ("while", .kwWhile), ("do", .kwDo),
    ("or", .kwOr), ("and", .kwAnd), ("not", .kwNot)]

/-- A word is its reserved kind, if the dialect reserves it, or an identifier. Case matters. -/
def wordKind (d : Dialect) (word : List Char) : Kind :=
  match reservedWords.find? fun entry => entry.1.toList == word with
  | some (_, k) => if d.reservesAllWords || k == .kwProgram then k else .identifier
  | none => .identifier

/-- An operator is looked up as a whole: a run such as `+-` is an error and not two operators. -/
def operatorKind (d : Dialect) : List Char → Kind
  | ['+'] => .plus
  | ['-'] => .minus
  | ['*'] => .times
  | ['/'] => .divide
  | ['='] => .equal
  | ['<'] => .less
  | ['>'] => .greater
  | ['<', '='] => if d.hasRelationalPairs then .lessEqual else .error
  | ['>', '='] => if d.hasRelationalPairs then .greaterEqual else .error
  | ['<', '>'] => if d.hasRelationalPairs then .notEqual else .error
  | _ => .error

/-- The kind of a character that always stands alone. -/
def singleKind : Char → Kind
  | '.' => .dot
  | ';' => .semicolon
  | ',' => .comma
  | '(' => .leftParen
  | ')' => .rightParen
  | _ => .error

/-- The kind of a piece. -/
def classify (d : Dialect) : List Char → Kind
  | [] => .error
  | c :: more =>
    if isOperatorChar c then operatorKind d (c :: more)
    else if isWordStart c then wordKind d (c :: more)
    else if c.isDigit then if more.contains '.' then .realLiteral else .integerLiteral
    else if c == ':' then if more.isEmpty then .colon else .assign
    else singleKind c

/-! ## Where a piece ends -/

/-- Behind a digit: the further digits, and a fraction where the dialect has them. A dot belongs
to the number only if a digit follows it. -/
def munchNumber (d : Dialect) (cs : List Char) : List Char × List Char :=
  let digits := cs.takeWhile Char.isDigit
  match cs.dropWhile Char.isDigit with
  | '.' :: c :: more =>
    if d.hasRealLiterals && c.isDigit then
      (digits ++ '.' :: c :: more.takeWhile Char.isDigit, more.dropWhile Char.isDigit)
    else (digits, '.' :: c :: more)
  | after => (digits, after)

/-- Behind a colon: the equals sign that makes it an assignment sign. It is taken before it can
start an operator. -/
def munchColon (d : Dialect) : List Char → List Char × List Char
  | '=' :: more => if d.hasAssign then (['='], more) else ([], '=' :: more)
  | cs => ([], cs)

/-- The rest of the piece that starts with `c`, and what follows the piece. -/
def munch (d : Dialect) (c : Char) (cs : List Char) : List Char × List Char :=
  if isOperatorChar c then (cs.takeWhile isOperatorChar, cs.dropWhile isOperatorChar)
  else if isWordStart c then (cs.takeWhile isWordChar, cs.dropWhile isWordChar)
  else if c.isDigit then munchNumber d cs
  else if c == ':' then munchColon d cs
  else ([], cs)

/-! ## Where a gap ends -/

/-- The text without the gap at its front; `inComment` says that the front is inside a comment.
Comments do not nest, and one that is not closed goes on to the end of the text. -/
def dropGap (d : Dialect) (inComment : Bool) : List Char → List Char
  | [] => []
  | c :: more =>
    if inComment then dropGap d (c != '}') more
    else if isBlank c then dropGap d false more
    else if c == '{' && d.hasComments then dropGap d true more
    else c :: more

/-! ## Nothing is lost -/

theorem munchNumber_append (d : Dialect) (cs : List Char) :
    (munchNumber d cs).1 ++ (munchNumber d cs).2 = cs := by
  have whole : cs.takeWhile Char.isDigit ++ cs.dropWhile Char.isDigit = cs :=
    List.takeWhile_append_dropWhile
  unfold munchNumber
  split
  · next c more h =>
    rw [h] at whole
    split
    · simpa using whole
    · exact whole
  · exact whole

theorem munchColon_append (d : Dialect) (cs : List Char) :
    (munchColon d cs).1 ++ (munchColon d cs).2 = cs := by
  unfold munchColon
  split
  · split <;> rfl
  · rfl

/-- A piece and what follows it make up the text. -/
theorem munch_append (d : Dialect) (c : Char) (cs : List Char) :
    (munch d c cs).1 ++ (munch d c cs).2 = cs := by
  unfold munch
  split
  · exact List.takeWhile_append_dropWhile
  split
  · exact List.takeWhile_append_dropWhile
  split
  · exact munchNumber_append d cs
  split
  · exact munchColon_append d cs
  · rfl

/-- What follows a piece is an end of the text. -/
theorem munch_suffix (d : Dialect) (c : Char) (cs : List Char) : (munch d c cs).2 <:+ cs :=
  ⟨_, munch_append d c cs⟩

/-- What follows a gap is an end of the text. -/
theorem dropGap_suffix (d : Dialect) (inComment : Bool) (cs : List Char) :
    dropGap d inComment cs <:+ cs := by
  fun_induction dropGap d inComment cs with
  | case1 => exact List.suffix_rfl
  | case2 c more ih => exact ih.trans (List.suffix_cons c more)
  | case3 _ c more _ _ ih => exact ih.trans (List.suffix_cons c more)
  | case4 _ c more _ _ _ ih => exact ih.trans (List.suffix_cons c more)
  | case5 => exact List.suffix_rfl

/-! ## No piece is the end of a text -/

/-- The kinds that words are of. -/
def wordKinds : List Kind := .identifier :: reservedWords.map Prod.snd

/-- The kinds that operators are of. -/
def operatorKinds : List Kind :=
  [.plus, .minus, .times, .divide, .equal, .less, .greater, .lessEqual, .greaterEqual, .notEqual,
    .error]

theorem wordKind_mem (d : Dialect) (word : List Char) : wordKind d word ∈ wordKinds := by
  unfold wordKind
  split
  · next k h =>
    split
    · exact List.mem_cons_of_mem _ (List.mem_map_of_mem (List.mem_of_find?_eq_some h))
    · exact List.mem_cons_self
  · exact List.mem_cons_self

theorem operatorKind_mem (d : Dialect) (run : List Char) :
    operatorKind d run ∈ operatorKinds := by
  cases d <;> unfold operatorKind <;> split <;> decide

theorem wordKind_ne_endOfText (d : Dialect) (word : List Char) : wordKind d word ≠ .endOfText :=
  fun h => absurd (h ▸ wordKind_mem d word) (by decide)

theorem operatorKind_ne_endOfText (d : Dialect) (run : List Char) :
    operatorKind d run ≠ .endOfText :=
  fun h => absurd (h ▸ operatorKind_mem d run) (by decide)

theorem singleKind_ne_endOfText (c : Char) : singleKind c ≠ .endOfText := by
  unfold singleKind
  split <;> decide

/-- Every piece is of a kind of its own; the end of a text is no piece. -/
theorem classify_ne_endOfText (d : Dialect) (piece : List Char) :
    classify d piece ≠ .endOfText := by
  unfold classify
  split
  · decide
  split
  · exact operatorKind_ne_endOfText _ _
  split
  · exact wordKind_ne_endOfText _ _
  split
  · split <;> decide
  split
  · split <;> decide
  · exact singleKind_ne_endOfText _

end MiniPascal.Lexis
