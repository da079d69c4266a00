import MiniPascal.Text.Pattern.Atom

/-!
# Classes of characters

A class is written in brackets: members, ranges, named classes such as `[:alpha:]`, classes in
classes, and the operations `&&`, `--` and `~~` between them. `readClass` reads a class and tells
how deep it is, which is all that is kept of it.

A class cannot be empty: a closing bracket that comes first is a member. Hyphens that come first
are members as well.
-/

namespace MiniPascal.Text.Pattern

/-- How deep parts are that stand together. A part alone is as deep as it is by itself. -/
def joined : List Nat → Nat
  | [] => 0
  | [depth] => depth
  | depths => depths.foldl max 0 + 1

/-- The classes with a name. -/
def classNames : List String :=
  ["alnum", "alpha", "ascii", "blank", "cntrl", "digit", "graph", "lower", "print", "punct",
    "space", "upper", "word", "xdigit"]

/-- A class that is not yet closed. -/
structure OpenClass where
  /-- How deep the members are that were read since the last operation. -/
  members : List Nat := []
  /-- How deep the left side of an operation is. -/
  left? : Option Nat := none
  deriving DecidableEq, Repr

namespace OpenClass

/-- How deep the content is. -/
def depth (o : OpenClass) : Nat :=
  match o.left? with
  | none => joined o.members
  | some left => max left (joined o.members) + 1

def add (o : OpenClass) (depth : Nat) : OpenClass := { o with members := depth :: o.members }

/-- Starts the right side of an operation. What was read so far is its left side. -/
def operate (o : OpenClass) : OpenClass := { left? := some o.depth }

end OpenClass

/-! ## Reading -/

/-- Reads the hyphens that come first. -/
def readHyphens (m : Mode) (o : OpenClass) : List Char → OpenClass × List Char
  | [] => (o, [])
  | c :: more => if c = '-' then readHyphens m (o.add 0) (m.skip more) else (o, c :: more)
termination_by cs => cs.length
decreasing_by exact Nat.lt_succ_of_le (m.skip_suffix more).length_le

/-- Reads the front of a class from behind its bracket. A class of bytes cannot be negated. -/
def readClassFront (m : Mode) (cs : List Char) : Option (OpenClass × List Char) := do
  let first := m.skip cs
  let inner ← match first with
    | '^' :: more => if m.unicode then some (m.skip more) else none
    | _ => some first
  let (o, rest) := readHyphens m {} inner
  let (o, rest) := match rest with
    | ']' :: more => if o.members.isEmpty then (o.add 0, m.skip more) else (o, rest)
    | _ => (o, rest)
  if o.members.isEmpty || m.allowsMember ']' then some (o, rest) else none

/-- Reads a named class from behind its bracket: whether it is negated, and what follows. -/
def readNamedClass? (cs : List Char) : Option (Bool × List Char) :=
  match cs with
  | ':' :: more =>
    let negated := more.head? == some '^'
    let body := if negated then more.drop 1 else more
    match body.dropWhile (· != ':') with
    | ':' :: ']' :: rest =>
      if classNames.contains (String.ofList (body.takeWhile (· != ':'))) then some (negated, rest)
      else none
    | _ => none
  | _ => none

/-- The character that tells whether a hyphen makes a range: the first one behind the hyphen, where
a spaced mode leaves out white space and the sign of a comment, but not the comment. -/
def afterHyphen (m : Mode) (cs : List Char) : Option Char :=
  let seen := if m.isSpaced then
      match cs.dropWhile isWhiteSpace with
      | '#' :: more => more.dropWhile isWhiteSpace
      | more => more
    else cs
  seen.head?.or cs.head?

/-- Reads a member, which is an atom. -/
def readMember (m : Mode) : List Char → Option (Atom × List Char)
  | [] => none
  | '\\' :: more => readEscape m more
  | c :: more => some (.literal c false, more)

/-- Reads a member or a range. -/
def readRange (m : Mode) (cs : List Char) : Option (List Char) := do
  let (low, behind) ← readMember m cs
  let rest := m.skip behind
  match rest with
  | [] => none
  | c :: more =>
    let next := afterHyphen m more
    if c != '-' || next == some ']' || next == some '-' then
      match low with
      | .literal c _ => if m.allowsMember c then some rest else none
      | .kind => some rest
      | .assertion => none
    else
      let (high, after) ← readMember m (m.skip more)
      match low, high with
      | .literal a _, .literal b _ =>
        if a ≤ b ∧ m.allowsMember a ∧ m.allowsMember b then some after else none
      | _, _ => none

/-- The classes under way, the innermost first, and what is still to be read. -/
structure ClassReading where
  inner : OpenClass
  outer : List OpenClass
  rest : List Char

/-- Takes a step in a class: to the class further in, or to the end with its depth. -/
def ClassReading.step (m : Mode) (r : ClassReading) : Option (ClassReading ⊕ Nat × List Char) :=
  match m.skip r.rest with
  | [] => none
  | '[' :: more =>
    match readNamedClass? more with
    | some (negated, rest) =>
      if (if m.unicode then !m.ignoresCase else !negated) then
        some (.inl { r with inner := r.inner.add 0, rest })
      else none
    | none => do
      let (inner, rest) ← readClassFront m more
      return .inl { inner, outer := r.inner :: r.outer, rest }
  | ']' :: more =>
    let depth := r.inner.depth + 1
    match r.outer with
    | [] => some (.inr (depth, more))
    | o :: outer => some (.inl { inner := o.add depth, outer, rest := more })
  | '&' :: '&' :: more | '-' :: '-' :: more | '~' :: '~' :: more =>
    some (.inl { r with inner := r.inner.operate, rest := more })
  | cs => do return .inl { r with inner := r.inner.add 0, rest := ← readRange m cs }

/-- Reads on to the end of the outermost class. Every step reads a character. -/
def ClassReading.readAll (m : Mode) (r : ClassReading) : Option (Nat × List Char) :=
  match r.step m with
  | none => none
  | some (.inr found) => some found
  | some (.inl next) => if _h : next.rest.length < r.rest.length then next.readAll m else none
termination_by r.rest.length

/-- Reads a class from behind its bracket: how deep it is, and what follows. -/
def readClass (m : Mode) (cs : List Char) : Option (Nat × List Char) := do
  let (inner, rest) ← readClassFront m cs
  ClassReading.readAll m { inner, outer := [], rest }

end MiniPascal.Text.Pattern
