import MiniPascal.Diagnostic
import MiniPascal.Trace

/-!
# Transcripts

A transcript is what a check has to say: traces and diagnostics, in the order in which they arose.
Traces belong on the output stream and diagnostics on the error stream; printing the lines in their
order keeps the two streams interleaved as the check produced them.
-/

namespace MiniPascal

/-- Where a line is printed. -/
inductive Stream where
  | output
  | errors
  deriving DecidableEq, Repr

/-- A line of a transcript. -/
inductive Line where
  | trace (t : Trace)
  | diagnostic (e : Diagnostic)
  deriving DecidableEq, Repr

namespace Line

def stream : Line → Stream
  | trace _ => .output
  | diagnostic _ => .errors

def text : Line → String
  | trace t => t.text
  | diagnostic e => e.message

def trace? : Line → Option Trace
  | trace t => some t
  | diagnostic _ => none

def diagnostic? : Line → Option Diagnostic
  | trace _ => none
  | diagnostic e => some e

end Line

/-- The lines of a check, in order. -/
structure Transcript where
  lines : List Line := []
  deriving DecidableEq, Repr, Inhabited

namespace Transcript

/-- The transcript with one more line. -/
def add (t : Transcript) (l : Line) : Transcript := ⟨t.lines ++ [l]⟩

def length (t : Transcript) : Nat := t.lines.length

def isEmpty (t : Transcript) : Bool := t.lines.isEmpty

def traces (t : Transcript) : List Trace := t.lines.filterMap Line.trace?

def diagnostics (t : Transcript) : List Diagnostic := t.lines.filterMap Line.diagnostic?

/-- The number of diagnostics. -/
def errorCount (t : Transcript) : Nat := t.diagnostics.length

/-- Nothing was wrong. -/
def isClean (t : Transcript) : Bool := t.errorCount == 0

/-- What is printed, line by line. -/
def texts (t : Transcript) : List String := t.lines.map Line.text

/-- What is printed on one stream. -/
def textsOn (t : Transcript) (s : Stream) : List String :=
  (t.lines.filter (·.stream = s)).map Line.text

@[simp] theorem lines_add (t : Transcript) (l : Line) : (t.add l).lines = t.lines ++ [l] := rfl

/-- Every line is a trace or a diagnostic. -/
theorem length_eq (t : Transcript) : t.length = t.traces.length + t.errorCount := by
  obtain ⟨lines⟩ := t
  simp only [length, traces, errorCount, diagnostics]
  induction lines with
  | nil => rfl
  | cons l lines ih =>
    cases l <;>
      simp only [List.filterMap_cons, Line.trace?, Line.diagnostic?, List.length_cons] <;>
      omega

/-- A transcript is clean if no line is a diagnostic. -/
theorem isClean_iff (t : Transcript) : t.isClean ↔ ∀ l ∈ t.lines, l.diagnostic? = none := by
  simp [isClean, errorCount, diagnostics, List.filterMap_eq_nil_iff]

/-- The traces are for the output stream. -/
theorem textsOn_output (t : Transcript) : t.textsOn .output = t.traces.map Trace.text := by
  obtain ⟨lines⟩ := t
  simp only [textsOn, traces]
  induction lines with
  | nil => rfl
  | cons l lines ih =>
    cases l with
    | trace tr => exact congrArg (tr.text :: ·) ih
    | diagnostic e => exact ih

/-- The diagnostics are for the error stream. -/
theorem textsOn_errors (t : Transcript) :
    t.textsOn .errors = t.diagnostics.map Diagnostic.message := by
  obtain ⟨lines⟩ := t
  simp only [textsOn, diagnostics]
  induction lines with
  | nil => rfl
  | cons l lines ih =>
    cases l with
    | trace tr => exact ih
    | diagnostic e => exact congrArg (e.message :: ·) ih

end Transcript

end MiniPascal
