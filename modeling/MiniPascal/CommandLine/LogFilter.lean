import MiniPascal.CommandLine.Log
import MiniPascal.Text.Alphanumeric
import MiniPascal.Text.Bytes
import MiniPascal.Text.Pattern
import MiniPascal.Text.WhiteSpace

/-!
# Filters of the log

A filter is a list of directives, written with commas between them. A directive sets a threshold
for some of the entries: for those that come from a part of the program, for those that have a
field, or for those inside a span. It is written

    origin[span{field=value}]=threshold

where every part may be left out. A word alone is a threshold if it names one, and an origin if it
does not; a directive without a threshold shows everything that it is about.

The most specific directive that is about an entry governs it (`LogFilter.governing?`). A check has
no spans, and the values of fields are those of spans, so a directive with a span or a value is
about no entry; but it has to be well written, as one directive that is not spoils the filter.
-/

namespace MiniPascal.CommandLine

open Text

/-! ## Directives -/

/-- What a directive asks of the fields. -/
structure FieldTest where
  name : String
  /-- A pattern, or a number, for the field's value. -/
  value? : Option String := none
  deriving DecidableEq, Repr

/-- What is set for some of the entries. -/
structure Directive where
  /-- How the origin of the entries begins. -/
  origin : String := ""
  span? : Option String := none
  field? : Option FieldTest := none
  threshold : Threshold := .finest
  deriving DecidableEq, Repr

namespace Directive

/-- The directive is about the entry. -/
def concerns (d : Directive) (e : LogEntry) : Bool :=
  d.origin.toList.isPrefixOf e.origin.toList && d.span?.isNone &&
    match d.field? with
    | none => true
    | some test => test.value?.isNone && e.fieldNames.contains test.name

/-- The directive is more specific than another one that is about the same entry: by its origin,
or by asking for a field. Of two fields the one that comes later in the alphabet counts. -/
def outranks (d other : Directive) : Bool :=
  if d.origin.length = other.origin.length then
    match d.field?, other.field? with
    | some test, some test' => test'.name < test.name
    | some _, none => true
    | none, _ => false
  else other.origin.length < d.origin.length

end Directive

/-! ## Reading directives -/

namespace FieldTest

/-- A number without a sign, whole or not; a number may be infinite, or none. -/
def isUnsignedNumber (cs : List Char) : Bool :=
  let whole := cs.takeWhile Char.isDigit
  let afterWhole := cs.dropWhile Char.isDigit
  let fraction := match afterWhole with
    | '.' :: more => more.takeWhile Char.isDigit
    | _ => []
  let afterFraction := match afterWhole with
    | '.' :: more => more.dropWhile Char.isDigit
    | more => more
  let exponent := match afterFraction with
    | [] => true
    | e :: '+' :: digits | e :: '-' :: digits | e :: digits =>
      e.toLower == 'e' && !digits.isEmpty && digits.all Char.isDigit
  !(whole ++ fraction).isEmpty && exponent ||
    ["inf", "infinity", "nan"].contains (String.ofList (cs.map Char.toLower))

/-- A value is a pattern. A number is one as well, and may have a plus sign in front. -/
def isValue (cs : List Char) : Bool :=
  Pattern.isPattern cs ||
    match cs with
    | '+' :: number => isUnsignedNumber number
    | _ => false

/-- A name, or a name and a value. What follows a second equals sign does not matter. -/
def parse? (s : String) : Option FieldTest :=
  match s.splitOn "=" with
  | name :: value :: _ => if isValue value.toList then some ⟨name, some value⟩ else none
  | name :: [] => some ⟨name, none⟩
  | [] => none

end FieldTest

namespace Directive

/-- A text that stands for a directive. The places of its parts are counted, in bytes, in the text
without the white space around it; the parts themselves are cut out of the whole text. So white
space in front of a directive belongs to its first part, and shifts the others; a part that would
be cut inside of a character is no part. -/
structure Source where
  whole : List Char
  deriving Repr

namespace Source

/-- The text in which the places are counted. -/
def trimmed (s : Source) : List Char := trim s.whole

/-- The part behind a place. -/
def cutFrom? (s : Source) (start : Nat) : Option String := do
  let (_, back) ← splitBytes? start s.whole
  return String.ofList back

/-- The part between two places. -/
def cut? (s : Source) (start stop : Nat) : Option String := do
  let (front, _) ← splitBytes? stop s.whole
  let (_, part) ← splitBytes? start front
  return String.ofList part

/-- What is to be read from a place on. -/
def readable (s : Source) (place : Nat) : List Char :=
  match splitBytes? place s.trimmed with
  | some (_, back) => back
  | none => []

/-- The character at a place. -/
def at? (s : Source) (place : Nat) : Option Char := (s.readable place).head?

/-- The first place from `start` on where one of the characters stands, or the end. -/
def find (s : Source) (marks : List Char) (start : Nat) : Nat :=
  start + byteLength ((s.readable start).takeWhile fun c => !marks.contains c)

/-- The threshold behind a place. None at all is the finest. -/
def threshold? (s : Source) (start : Nat) : Option Threshold := do
  let name ← s.cutFrom? start
  if name = "" then some .finest else Threshold.ofText? name

/-- Reads on behind the bracket that closes a span. -/
def afterSpan (s : Source) (d : Directive) (place : Nat) : Option Directive :=
  match s.at? place with
  | none => some d
  | some '=' => do return { d with threshold := ← s.threshold? (place + 1) }
  | some _ => none

/-- Reads on behind the bracket that opens a span. -/
def inSpan (s : Source) (d : Directive) (start : Nat) : Option Directive := do
  let stop := s.find [']', '\x7b'] start
  let mark ← s.at? stop
  let span ← s.cut? start stop
  if mark = ']' then s.afterSpan { d with span? := some span } (stop + 1)
  else
    let close := s.find ['\x7d'] (stop + 1)
    guard (stop + 1 < close ∧ s.at? close = some '\x7d' ∧ s.at? (close + 1) = some ']')
    let test ← FieldTest.parse? (← s.cut? (stop + 1) close)
    let span? := if span = "" then none else some span
    s.afterSpan { d with span?, field? := some test } (close + 2)

/-- A word alone is a threshold, or the origin of the entries that are shown. -/
def word (s : Source) : Directive :=
  let name := String.ofList s.whole
  match Threshold.ofText? name with
  | some threshold => { threshold }
  | none => { origin := name }

/-- The character may come first in a directive that has an origin or is a threshold. -/
def isFirst (c : Char) : Bool := isAlphanumeric c || c == '-' || c == ':' || c == '_'

/-- Reads a directive. -/
def parse? (s : Source) : Option Directive := do
  let first ← s.at? 0
  guard (first = '[' ∨ isFirst first)
  let stop := s.find ['=', '['] 0
  match s.at? stop with
  | none => return s.word
  | some mark =>
    let origin ← s.cut? 0 stop
    if mark = '=' then return { origin, threshold := ← s.threshold? (stop + 1) }
    else s.inSpan { origin } (stop + 1)

end Source

/-- Reads a directive. -/
def parse? (s : String) : Option Directive := Source.parse? ⟨s.toList⟩

end Directive

/-! ## Filters -/

/-- Which entries of the log are shown. -/
structure LogFilter where
  directives : List Directive
  deriving DecidableEq, Repr

namespace LogFilter

/-- Shows the entries up to a threshold. -/
def upTo (t : Threshold) : LogFilter := ⟨[{ threshold := t }]⟩

/-- The directives of a setting. If it has none, errors are shown. -/
def ofSetting? (s : String) : Option LogFilter := do
  let directives ← ((s.splitOn ",").filter (· ≠ "")).mapM Directive.parse?
  return if directives.isEmpty then upTo ⟨Level.error.rank⟩ else ⟨directives⟩

/-- A setting that can be read wins over the options. -/
def choose (setting : Option String) (verbosity : Nat) : LogFilter :=
  (setting.bind ofSetting?).getD (upTo (.ofVerbosity verbosity))

/-- The most specific directive that is about an entry; of two that are equally specific, the
later one. -/
def governing? (f : LogFilter) (e : LogEntry) : Option Directive :=
  (f.directives.filter (·.concerns e)).foldl (fun best? d =>
    match best? with
    | some best => if best.outranks d then some best else some d
    | none => some d) none

/-- The entry is shown. -/
def shows (f : LogFilter) (e : LogEntry) : Bool :=
  match f.governing? e with
  | some d => d.threshold.shows e.level
  | none => false

/-- A threshold for all entries looks at nothing but their levels. -/
theorem shows_upTo (t : Threshold) (e : LogEntry) : (upTo t).shows e = t.shows e.level := by
  simp [shows, governing?, upTo, Directive.concerns]

/-- The lines of the entries that are shown. -/
def lines (f : LogFilter) (entries : List LogEntry) : List String :=
  (entries.filter f.shows).map LogEntry.line

end LogFilter

end MiniPascal.CommandLine
