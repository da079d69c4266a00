import MiniPascal.Journal
import MiniPascal.Settings
import MiniPascal.Text.Numeral

/-!
# The log

Beside its output the program keeps a log of what it does. Each entry has a level, a part of the
program that it comes from, a message and fields; by these a filter tells which entries are shown.
The entries between `checking` and `done` are the journal of the check, without the lines of the
transcript.
-/

namespace MiniPascal.CommandLine

open Text

/-- How much an entry matters, from the most to the least. -/
inductive Level where
  | error
  | warn
  | info
  | debug
  | trace
  deriving DecidableEq, Repr

namespace Level

def rank : Level → Nat
  | error => 1
  | warn => 2
  | info => 3
  | debug => 4
  | trace => 5

def label : Level → String
  | error => "ERROR"
  | warn => "WARN"
  | info => "INFO"
  | debug => "DEBUG"
  | trace => "TRACE"

def all : List Level := [error, warn, info, debug, trace]

end Level

/-- The levels that are shown: those of at most this rank. -/
structure Threshold where
  rank : Nat
  deriving DecidableEq, Repr

namespace Threshold

def shows (t : Threshold) (l : Level) : Bool := l.rank ≤ t.rank

/-- Every level is shown. -/
def finest : Threshold := ⟨Level.trace.rank⟩

/-- A threshold by its name, in any case, or by its rank. -/
def ofText? (s : String) : Option Threshold :=
  match Numeral.word? s with
  | some rank => if rank ≤ finest.rank then some ⟨rank⟩ else none
  | none =>
    let name := s.map Char.toUpper
    if name = "OFF" then some ⟨0⟩
    else (Level.all.find? (·.label == name)).map fun l => ⟨l.rank⟩

/-- The threshold when more of the log was asked for `n` times. Warnings are always shown. -/
def ofVerbosity (n : Nat) : Threshold := ⟨min (n + 2) 5⟩

end Threshold

/-- What is put in the log. -/
inductive LogEntry where
  /-- A file was read; its size is in bytes. -/
  | readSource (path : String) (bytes : Nat)
  /-- A check begins; the size is that of the text, in bytes. -/
  | checking (s : Settings) (bytes : Nat)
  | scanned (t : Token)
  | diagnostic (e : Diagnostic)
  /-- The check of a whole program came to its end. -/
  | finished (errors lines : Nat)
  | done (errors : Nat)
  deriving DecidableEq, Repr

namespace LogEntry

def level : LogEntry → Level
  | readSource .. => .debug
  | checking .. => .info
  | scanned _ => .trace
  | diagnostic _ => .debug
  | finished .. => .debug
  | done _ => .info

/-- The settings as a record. -/
def showSettings (s : Settings) : String :=
  "CheckerConfig \x7b dialect: " ++ s.dialect.title ++ ", recovery: " ++ s.recovery.title ++
    ", max_nesting: " ++ toString s.maxNesting ++ " \x7d"

/-- The part of the program that the entry comes from, by the name that settings of the log know
it by. -/
def origin : LogEntry → String
  | checking .. | done _ => "pascheck"
  | scanned _ => "pascheck::parser::lexer"
  | readSource .. | diagnostic _ | finished .. => "pascheck::parser::parse"

def message : LogEntry → String
  | readSource .. => "read source"
  | checking .. => "checking"
  | scanned _ => "scanned token"
  | diagnostic _ => "syntax error"
  | finished .. => "check finished"
  | done _ => "done"

/-- The names and values that are shown behind the message. -/
def fields : LogEntry → List (String × String)
  | readSource path bytes => [("path", path), ("bytes", toString bytes)]
  | checking s bytes => [("config", showSettings s), ("bytes", toString bytes)]
  | scanned t => [("kind", t.kind.label), ("lexeme", t.lexeme)]
  | diagnostic e => [("error", e.message)]
  | finished errors lines => [("errors", toString errors), ("lines", toString lines)]
  | done errors => [("errors", toString errors)]

/-- The names that settings can ask for; the message counts as a field. -/
def fieldNames (e : LogEntry) : List String := "message" :: e.fields.map Prod.fst

def text (e : LogEntry) : String :=
  e.message ++ String.join (e.fields.map fun field => " " ++ field.1 ++ "=" ++ field.2)

/-- The line that is shown. -/
def line (e : LogEntry) : String := e.level.label ++ " " ++ e.text

/-- The entry for an event of a check. The lines of the transcript are left out. -/
def ofEvent? : Event → Option LogEntry
  | .scanned t => some (scanned t)
  | .said _ => none
  | .noted e => some (diagnostic e)
  | .finished errors lines => some (finished errors lines)

end LogEntry

end MiniPascal.CommandLine
