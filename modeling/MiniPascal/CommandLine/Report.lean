import MiniPascal.CommandLine.Options
import MiniPascal.Transcript

/-!
# Reports

A report is what is printed after a check: the lines of the transcript, each on its stream, and a
summary. `report` lists what is to be written, in order; `deliver` tells what arrives where
standard output may fail.
-/

namespace MiniPascal.CommandLine

/-- A line to be written on a stream. -/
structure Write where
  stream : Stream
  line : String
  deriving DecidableEq, Repr

/-- A text in red, followed by the usual color. -/
def red (s : String) : String := "\x1b[38;5;9m" ++ s ++ "\x1b[39m"

/-- A text in bold, followed by the usual weight. -/
def bold (s : String) : String := "\x1b[1m" ++ s ++ "\x1b[0m"

/-- The number of diagnostics, in words. -/
def countText (n : Nat) : String := toString n ++ if n = 1 then " diagnostic" else " diagnostics"

/-- What is printed for a line of the transcript: its text, on its stream. -/
def writeOf? (styled quiet : Bool) (l : Line) : Option Write :=
  match l.stream with
  | .output => if quiet then none else some ⟨.output, l.text⟩
  | .errors => some ⟨.errors, if styled then red l.text else l.text⟩

/-- What is printed for a transcript. -/
def report (styled : Bool) (o : Options) (t : Transcript) : List Write :=
  t.lines.filterMap (writeOf? styled o.quiet) ++
    if o.summary then
      let text := countText t.errorCount
      [⟨.errors, if styled && !t.isClean then bold text else text⟩]
    else []

/-- Why standard output takes nothing. -/
inductive WriteError where
  /-- Nobody reads any more. -/
  | closed
  /-- It cannot be written; these are the operating system's words. -/
  | failed (cause : String)
  deriving DecidableEq, Repr

/-- The device that standard output goes to is full. -/
def WriteError.full : WriteError := failed "No space left on device (os error 28)"

/-- What has arrived, and what has stopped the rest. -/
structure Delivery where
  output : List String := []
  errors : List String := []
  failure : Option WriteError := none
  deriving DecidableEq, Repr

/-- Writes line by line. Where standard output fails, the first line that goes there is lost, and
everything behind it. -/
def deliver (broken : Option WriteError) : List Write → Delivery
  | [] => {}
  | w :: more =>
    match w.stream, broken with
    | .output, some e => { failure := some e }
    | .output, none =>
      let rest := deliver broken more
      { rest with output := w.line :: rest.output }
    | .errors, _ =>
      let rest := deliver broken more
      { rest with errors := w.line :: rest.errors }

end MiniPascal.CommandLine
