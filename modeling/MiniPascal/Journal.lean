import MiniPascal.Token
import MiniPascal.Transcript

/-!
# Journals

A journal holds everything that happened in a check, in order: each token that was scanned, each
line of the transcript, and the end of the check of a whole program. A diagnostic is noted on its
own, beside the line that it adds to the transcript. The transcript is a view of the lines, and the
log is a view of everything else.
-/

namespace MiniPascal

/-- Something that happened in a check. -/
inductive Event where
  /-- A token was scanned, to be the current one. Looking ahead is no event. -/
  | scanned (t : Token)
  /-- A line was added to the transcript. -/
  | said (l : Line)
  /-- A diagnostic was noted for the log. -/
  | noted (e : Diagnostic)
  /-- The check of a whole program came to its end, with so many diagnostics and lines. -/
  | finished (errors lines : Nat)
  deriving DecidableEq, Repr

/-- The line that an event adds to the transcript. -/
def Event.line? : Event → Option Line
  | said l => some l
  | _ => none

/-- The token that an event scanned. -/
def Event.token? : Event → Option Token
  | scanned t => some t
  | _ => none

/-- The diagnostic that an event notes. -/
def Event.diagnostic? : Event → Option Diagnostic
  | noted e => some e
  | _ => none

/-- The events of a check, the latest last. -/
structure Journal where
  events : Array Event := #[]
  deriving DecidableEq, Repr, Inhabited

namespace Journal

/-- The journal with one more event. -/
def add (j : Journal) (e : Event) : Journal := ⟨j.events.push e⟩

def toList (j : Journal) : List Event := j.events.toList

/-- What was said. -/
def transcript (j : Journal) : Transcript := ⟨j.toList.filterMap Event.line?⟩

/-- The tokens that were scanned. -/
def scanned (j : Journal) : List Token := j.toList.filterMap Event.token?

/-- The diagnostics that were noted. -/
def noted (j : Journal) : List Diagnostic := j.toList.filterMap Event.diagnostic?

@[simp] theorem toList_add (j : Journal) (e : Event) : (j.add e).toList = j.toList ++ [e] := by
  simp [add, toList]

@[simp] theorem lines_transcript_add (j : Journal) (e : Event) :
    (j.add e).transcript.lines = j.transcript.lines ++ e.line?.toList := by
  cases h : e.line? <;> simp [transcript, h]

@[simp] theorem scanned_add (j : Journal) (e : Event) :
    (j.add e).scanned = j.scanned ++ e.token?.toList := by
  cases h : e.token? <;> simp [scanned, h]

@[simp] theorem noted_add (j : Journal) (e : Event) :
    (j.add e).noted = j.noted ++ e.diagnostic?.toList := by
  cases h : e.diagnostic? <;> simp [noted, h]

end Journal

end MiniPascal
