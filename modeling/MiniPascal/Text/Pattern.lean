import MiniPascal.Text.Alphanumeric
import MiniPascal.Text.Pattern.Class

/-!
# Patterns

Which texts are regular expressions. Nothing is matched here: a setting of the log may hold a
pattern, and is refused as a whole if the pattern cannot be read.

A pattern is alternatives of sequences of atoms, classes and groups, each of which may be repeated.
It is read from left to right. Of what has been read only the depth is kept, as a pattern may not
be deeper than `maxDepth`, and whether it can be repeated.

Every step reads at least one character (`Reading.readAll`).
-/

namespace MiniPascal.Text.Pattern

/-- How deep a pattern may be. -/
def maxDepth : Nat := 250

/-- A part of a sequence. -/
structure Part where
  depth : Nat := 0
  /-- Only flags cannot be repeated. -/
  canRepeat : Bool := true
  deriving DecidableEq, Repr

/-- A group that is not yet closed; the outermost one is the whole pattern. -/
structure OpenGroup where
  /-- The mode behind the group. -/
  outerMode : Mode := {}
  /-- How deep the alternatives are in front of the one that is being read. -/
  alternatives : List Nat := []
  /-- The parts of the one that is being read, the last first. -/
  parts : List Part := []
  deriving DecidableEq, Repr

namespace OpenGroup

/-- How deep the alternative is that is being read. -/
def sequenceDepth (g : OpenGroup) : Nat := joined (g.parts.map Part.depth)

/-- How deep the content is. -/
def depth (g : OpenGroup) : Nat := joined (g.sequenceDepth :: g.alternatives)

def add (g : OpenGroup) (p : Part) : OpenGroup := { g with parts := p :: g.parts }

/-- Starts another alternative. -/
def alternate (g : OpenGroup) : OpenGroup :=
  { g with alternatives := g.sequenceDepth :: g.alternatives, parts := [] }

/-- Repeats the last part. -/
def repeatLast (g : OpenGroup) : Option OpenGroup :=
  match g.parts with
  | p :: parts =>
    if p.canRepeat then some { g with parts := { depth := p.depth + 1 } :: parts } else none
  | [] => none

end OpenGroup

/-- A reading under way. -/
structure Reading where
  mode : Mode := {}
  /-- The names of the groups so far. -/
  names : List (List Char) := []
  inner : OpenGroup := {}
  /-- The groups around the innermost one. -/
  outer : List OpenGroup := []
  rest : List Char

namespace Reading

/-- Adds a part that was read. -/
def add (r : Reading) (p : Part) (rest : List Char) : Reading :=
  { r with inner := r.inner.add p, rest }

/-- Opens a group, whose content is read in the given mode. -/
def openGroup (r : Reading) (m : Mode) (rest : List Char) : Reading :=
  { r with mode := m, inner := { outerMode := r.mode }, outer := r.inner :: r.outer, rest }

/-- Closes a group. -/
def closeGroup (r : Reading) (rest : List Char) : Option Reading :=
  match r.outer with
  | [] => none
  | g :: outer =>
    some { r with
      mode := r.inner.outerMode
      inner := g.add { depth := r.inner.depth + 1 }
      outer
      rest }

/-- The name of a group: letters, numbers and `_`, `.`, `[`, `]`, of which only a letter or an
underscore may come first. -/
def isName : List Char → Bool
  | [] => false
  | c :: more =>
    (c == '_' || isAlphabetic c) &&
      more.all fun c => isAlphanumeric c || ['_', '.', '[', ']'].contains c

/-- Opens a group with a name, which no other group may have. -/
def openNamed (r : Reading) (cs : List Char) : Option Reading :=
  let name := cs.takeWhile (· != '>')
  match cs.dropWhile (· != '>') with
  | [] => none
  | _ :: rest =>
    if isName name && !r.names.contains name then
      some ({ r with names := name :: r.names }.openGroup r.mode rest)
    else none

/-- Reads flags: for the rest of the group, or for a group of their own. -/
def readFlags (r : Reading) (cs : List Char) : Option Reading :=
  let isEnd (c : Char) : Bool := c == ':' || c == ')'
  let flags := cs.takeWhile (!isEnd ·)
  let mode := r.mode.withFlags flags
  if areFlags flags then
    match cs.dropWhile (!isEnd ·) with
    | ':' :: rest => some (r.openGroup mode rest)
    | ')' :: rest =>
      if flags.isEmpty then none
      else some ({ r with mode }.add { canRepeat := false } rest)
    | _ => none
  else none

/-- Reads on behind the parenthesis that opens a group. -/
def readGroup (r : Reading) (cs : List Char) : Option Reading :=
  match cs with
  | '?' :: 'P' :: '<' :: more | '?' :: '<' :: more => r.openNamed more
  | '?' :: more => r.readFlags more
  | _ => some (r.openGroup r.mode cs)

/-- Reads a character that stands for itself. -/
def addLiteral (r : Reading) (c : Char) (isByte : Bool) (rest : List Char) : Option Reading :=
  if r.mode.allowsLiteral c isByte then some (r.add {} rest) else none

/-- Reads the next part, or what joins the parts. Repetitions with a count in braces are not
known. -/
def step (r : Reading) (c : Char) (more : List Char) : Option Reading :=
  match c with
  | '(' => r.readGroup (r.mode.skip more)
  | ')' => r.closeGroup more
  | '|' => some { r with inner := r.inner.alternate, rest := more }
  | '[' => do
    let (depth, rest) ← readClass r.mode more
    return r.add { depth } rest
  | '*' | '+' | '?' => do
    let rest := match more with
      | '?' :: rest => rest
      | rest => rest
    return { r with inner := ← r.inner.repeatLast, rest }
  | '\x7b' => none
  | '\\' => do
    match ← readEscape r.mode more with
    | (.literal c isByte, rest) => r.addLiteral c isByte rest
    | (_, rest) => return r.add {} rest
  | '.' => if r.mode.unicode then some (r.add {} more) else none
  | '^' | '$' => some (r.add {} more)
  | c => r.addLiteral c false more

/-- Reads to the end. Every step reads a character. -/
def readAll (r : Reading) : Option Reading :=
  match r.mode.skip r.rest with
  | [] => some r
  | c :: more =>
    match r.step c more with
    | none => none
    | some next => if _h : next.rest.length < r.rest.length then next.readAll else none
termination_by r.rest.length

end Reading

/-- The text is a pattern: it can be read to its end, no group is left open, and it is not too
deep. -/
def isPattern (cs : List Char) : Bool :=
  match Reading.readAll { rest := cs } with
  | some r => r.outer.isEmpty && r.inner.depth ≤ maxDepth
  | none => false

example : isPattern "a(b|[^]c-e]+)*\\.".toList ∧ isPattern [] := by decide +kernel

/-- There is nothing to repeat, and a group is not closed. -/
example : !isPattern "*".toList ∧ !isPattern "a|+".toList ∧ !isPattern "(a".toList := by
  decide +kernel

/-- Digits are known outside of Unicode mode only, and a class of bytes holds ASCII only. -/
example :
    !isPattern "\\d".toList ∧ isPattern "(?-u)\\d".toList ∧ !isPattern "(?-u)\\D".toList := by
  decide +kernel

end MiniPascal.Text.Pattern
