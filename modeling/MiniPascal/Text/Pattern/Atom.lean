import MiniPascal.Text.Pattern.Mode

/-!
# Atoms of patterns

An atom is a character that stands for itself, or what is written with a backslash. `readEscape`
reads the latter from behind its backslash; it refuses what no pattern can hold, and what the mode
does not allow: words and their boundaries in Unicode mode, and the classes of characters that are
no digits, no words or no white space, as these hold more than ASCII.
-/

namespace MiniPascal.Text.Pattern

/-- The smallest parts of a pattern. -/
inductive Atom where
  /-- A character. It is a byte if it was written with two hexadecimal digits. -/
  | literal (c : Char) (isByte : Bool)
  /-- Digits, words or white space. -/
  | kind
  /-- A place in the text. -/
  | assertion
  deriving DecidableEq, Repr

/-- The characters that mean something in a pattern, and themselves behind a backslash. -/
def metaCharacters : List Char :=
  ['\\', '.', '+', '*', '?', '(', ')', '|', '[', ']', '\x7b', '\x7d', '^', '$', '#', '&', '-', '~']

/-- The character stands for itself behind a backslash: an ASCII character that is no letter, no
digit and no angle bracket. -/
def isEscapable (c : Char) : Bool :=
  metaCharacters.contains c || c.toNat < 128 && !c.isAlphanum && c != '<' && c != '>'

/-- The value of a hexadecimal digit. -/
def hexValue? (c : Char) : Option Nat :=
  if c.isDigit then some (c.toNat - '0'.toNat)
  else if 'a' ≤ c ∧ c ≤ 'f' then some (c.toNat - 'a'.toNat + 10)
  else if 'A' ≤ c ∧ c ≤ 'F' then some (c.toNat - 'A'.toNat + 10)
  else none

/-- Reads `n` hexadecimal digits and adds them to a number. In a spaced mode there may be space in
front of each. -/
def readHex (m : Mode) : Nat → Nat → List Char → Option (Nat × List Char)
  | 0, value, cs => some (value, cs)
  | n + 1, value, cs =>
    match m.skip cs with
    | [] => none
    | c :: more => do readHex m n (16 * value + (← hexValue? c)) more

/-- Reads a character by its number in `n` hexadecimal digits. -/
def readNumbered (m : Mode) (n : Nat) (isByte : Bool) (cs : List Char) :
    Option (Atom × List Char) := do
  let (value, more) ← readHex m n 0 cs
  if value.isValidChar then some (.literal (Char.ofNat value) isByte, more) else none

/-- Reads what stands behind a backslash. -/
def readEscape (m : Mode) : List Char → Option (Atom × List Char)
  | [] => none
  | c :: more =>
    if isEscapable c then some (.literal c false, more)
    else
      match c with
      | 'x' => readNumbered m 2 true more
      | 'u' => readNumbered m 4 false more
      | 'U' => readNumbered m 8 false more
      | 'a' => some (.literal '\x07' false, more)
      | 'f' => some (.literal '\x0c' false, more)
      | 't' => some (.literal '\t' false, more)
      | 'n' => some (.literal '\n' false, more)
      | 'r' => some (.literal '\r' false, more)
      | 'v' => some (.literal '\x0b' false, more)
      | 'd' | 's' | 'w' => if m.unicode then none else some (.kind, more)
      | 'b' | 'B' | '<' | '>' => if m.unicode then none else some (.assertion, more)
      | 'A' | 'z' => some (.assertion, more)
      | _ => none

namespace Mode

/-- A character may stand outside of classes. Its case may not matter in Unicode mode, and a byte
may not be a part of a character. -/
def allowsLiteral (m : Mode) (c : Char) (isByte : Bool) : Bool :=
  if m.unicode then !m.ignoresCase else !isByte || c.toNat < 128

/-- A character may stand in a class. Classes of bytes hold ASCII only. -/
def allowsMember (m : Mode) (c : Char) : Bool :=
  if m.unicode then !m.ignoresCase else c.toNat < 128

end Mode

end MiniPascal.Text.Pattern
