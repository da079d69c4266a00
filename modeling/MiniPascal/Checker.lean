import MiniPascal.Grammar
import MiniPascal.Journal
import MiniPascal.Scanner

/-!
# Checkers

A checker stands in front of one token of a text, the current one; the tokens behind it are still
unscanned. It knows how many levels are open and keeps a journal of what happened. This module
holds what a checker can do in one step; `Checker.run` puts the steps together.

Every step leaves a checker's settings and text alone, and adds to its journal.
-/

namespace MiniPascal

/-- A check under way. -/
structure Checker where
  /-- The text behind the current token. Its dialect is also the dialect of the grammar. -/
  scanner : Scanner
  recovery : Recovery
  maxNesting : Nat
  /-- The token in front of which the checker stands. -/
  current : Token
  /-- The number of open levels. -/
  depth : Nat := 0
  journal : Journal := {}
  deriving Inhabited

namespace Checker

/-! ## Views -/

def dialect (c : Checker) : Dialect := c.scanner.dialect

/-- The settings that the checker was made with. -/
def settings (c : Checker) : Settings := ⟨c.dialect, c.recovery, c.maxNesting⟩

/-- The lines so far. -/
def transcript (c : Checker) : Transcript := c.journal.transcript

/-- The place behind the current token, in bytes. -/
def position (c : Checker) : Nat := c.scanner.position

/-- The kind of the token behind the current one. -/
def peek (c : Checker) : Kind := c.scanner.peek

/-- The current token is of this kind. -/
def isAt (c : Checker) (k : Kind) : Bool := c.current.kind = k

/-- What is left to be consumed: the characters that are not yet scanned, and the current token
unless it is the end of the text. -/
def remaining (c : Checker) : Nat :=
  c.scanner.rest.length + if c.current.isEnd then 0 else 1

/-! ## Steps -/

/-- The checker in front of a text's first token. -/
def ofText (text : String) (s : Settings) : Checker :=
  let first := (Scanner.ofText text s.dialect).next
  { scanner := first.2
    recovery := s.recovery
    maxNesting := s.maxNesting
    current := first.1
    journal := Journal.add {} (.scanned first.1) }

/-- Consumes the current token and scans the next one. At the end of the text it stays there. -/
def advance (c : Checker) : Checker :=
  let found := c.scanner.next
  { c with
    scanner := found.2
    current := found.1
    journal := c.journal.add (.scanned found.1) }

def say (c : Checker) (l : Line) : Checker := { c with journal := c.journal.add (.said l) }

/-- Leaves a trace. -/
def mark (c : Checker) (t : Trace) : Checker := c.say (.trace t)

/-- Puts a diagnostic on record for the log. -/
def note (c : Checker) (e : Diagnostic) : Checker := { c with journal := c.journal.add (.noted e) }

/-- Records a diagnostic, first for the log and then in the transcript. -/
def report (c : Checker) (e : Diagnostic) : Checker := (c.note e).say (.diagnostic e)

/-- Consumes a token that does not fit, if the recovery policy says so. -/
def recover (c : Checker) : Checker := if c.recovery.consumesMismatch then c.advance else c

/-- Consumes a token of the given kind. Another token is handed to the recovery policy, and the
diagnostic is given back without being recorded. -/
def require (c : Checker) (k : Kind) : Option Diagnostic × Checker :=
  if c.isAt k then (none, c.advance) else (some (.expected k c.current.kind), c.recover)

/-- Consumes a token of the given kind; a diagnostic is recorded after the recovery. -/
def expect (c : Checker) (k : Kind) : Checker :=
  match c.require k with
  | (none, c') => c'
  | (some e, c') => c'.report e

/-- Opens a level if one is left. -/
def open? (c : Checker) : Option Checker :=
  if c.depth < c.maxNesting then some { c with depth := c.depth + 1 } else none

/-- Closes the level that was opened last. -/
def close (c : Checker) : Checker := { c with depth := c.depth - 1 }

/-- What happens where no level is left: that is reported, and one token is consumed. -/
def refuse (c : Checker) : Checker := (c.report (.nestingTooDeep c.maxNesting)).advance

/-- Takes a part of a check one level deeper. If no level is left, the part is not taken. -/
def nested {m : Type → Type} [Monad m] {α : Type} (c : Checker)
    (part : Checker → m (α × Checker)) : m (Option α × Checker) :=
  match c.open? with
  | some inner => do
    let (result, inner) ← part inner
    return (some result, inner.close)
  | none => return (none, c.refuse)

/-- Puts the end of the check on record, with the counts of the transcript. -/
def finish (c : Checker) : Checker :=
  { c with
    journal := c.journal.add (.finished c.transcript.errorCount c.transcript.length) }

/-- What a step does at once, and the steps that it leaves to be taken in its place. -/
def perform (c : Checker) : Step → Checker × List Step
  | .expect k => (c.expect k, [])
  | .mark t => (c.mark t, [])
  | .report e => (c.report e, [])
  | .skip => (c.advance, [])
  | .recover => (c.recover, [])
  | .phrase p => (c, Grammar.expand c.dialect p c.current.kind c.peek)
  | .level p =>
    match c.open? with
    | some c' => (c', [.phrase p, .close])
    | none => (c.refuse, [])
  | .close => (c.close, [])
  | .finish => (c.finish, [])

/-! ## What is left to be consumed -/

theorem remaining_pos {c : Checker} (h : c.current.kind ≠ .endOfText) : 0 < c.remaining := by
  simp [remaining, Token.isEnd, h]

theorem remaining_advance_le_length (c : Checker) :
    c.advance.remaining ≤ c.scanner.rest.length :=
  length_pull_add_le c.scanner.dialect c.scanner.rest

/-- Advancing leaves no more to be consumed. -/
theorem remaining_advance_le (c : Checker) : c.advance.remaining ≤ c.remaining :=
  Nat.le_trans c.remaining_advance_le_length (Nat.le_add_right _ _)

/-- Advancing leaves less to be consumed, except at the end of the text. -/
theorem remaining_advance_lt {c : Checker} (h : c.current.kind ≠ .endOfText) :
    c.advance.remaining < c.remaining := by
  have := c.remaining_advance_le_length
  simp only [remaining, Token.isEnd, h] at *
  simpa using Nat.lt_succ_of_le this

@[simp] theorem remaining_say (c : Checker) (l : Line) : (c.say l).remaining = c.remaining := rfl

@[simp] theorem remaining_mark (c : Checker) (t : Trace) : (c.mark t).remaining = c.remaining := rfl

@[simp] theorem remaining_report (c : Checker) (e : Diagnostic) :
    (c.report e).remaining = c.remaining := rfl

@[simp] theorem remaining_close (c : Checker) : c.close.remaining = c.remaining := rfl

@[simp] theorem remaining_finish (c : Checker) : c.finish.remaining = c.remaining := rfl

theorem remaining_recover_le (c : Checker) : c.recover.remaining ≤ c.remaining := by
  unfold recover
  split
  · exact remaining_advance_le c
  · exact Nat.le_refl _

/-- A token that is required and there is consumed. -/
theorem expect_of_isAt {c : Checker} {k : Kind} (h : c.current.kind = k) :
    c.expect k = c.advance := by
  simp [expect, require, isAt, h]

/-- A token that is required and not there is handed to the recovery policy, and then reported. -/
theorem expect_of_not_isAt {c : Checker} {k : Kind} (h : c.current.kind ≠ k) :
    c.expect k = c.recover.report (.expected k c.current.kind) := by
  simp [expect, require, isAt, h]

theorem remaining_expect_le (c : Checker) (k : Kind) : (c.expect k).remaining ≤ c.remaining := by
  by_cases h : c.current.kind = k
  · rw [expect_of_isAt h]
    exact remaining_advance_le c
  · rw [expect_of_not_isAt h, remaining_report]
    exact remaining_recover_le c

theorem remaining_refuse_le (c : Checker) : c.refuse.remaining ≤ c.remaining :=
  remaining_advance_le _

theorem remaining_refuse_lt {c : Checker} (h : c.current.kind ≠ .endOfText) :
    c.refuse.remaining < c.remaining :=
  remaining_advance_lt (c := c.report (.nestingTooDeep c.maxNesting)) h

end Checker

end MiniPascal
