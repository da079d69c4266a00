import MiniPascal.Checker.Run
import MiniPascal.CommandLine.LogFilter
import MiniPascal.CommandLine.Report
import MiniPascal.Text.Utf8

/-!
# Sessions

A session is one run of the program: from the arguments, the text to check and the surroundings to
what is printed and the exit code.

The exit code is 0, or 2 if something kept the program from its work, or 1 if strictness was asked
for and the text has faults. A reader of standard output who has gone away is not a failure.
-/

namespace MiniPascal.CommandLine

/-- The program's name and version. -/
def versionLine : String := "pascheck 0.1.0"

/-- The answer to a request for help. -/
def helpLines : List String :=
  ["Check the syntax of a Pascal-like program.",
    "",
    "Usage: pascheck [OPTIONS] [FILE]",
    "",
    "Arguments:",
    "  [FILE]  Source file to check; reads standard input when omitted or `-`",
    "",
    "Options:",
    "      --dialect <DIALECT>          legacy, standard or extended [default: standard]",
    "      --recovery <RECOVERY>        swallow or insert [default: swallow]",
    "      --max-nesting <MAX_NESTING>  Deepest allowed nesting [default: 256]",
    "      --strict                     Exit with status 1 when any diagnostic was reported",
    "  -q, --quiet                      Suppress trace lines",
    "      --summary                    Print a diagnostic count after the transcript",
    "      --color <COLOR>              auto, always or never [default: auto]",
    "  -v, --verbose...                 Increase log verbosity",
    "  -h, --help                       Print help",
    "  -V, --version                    Print version"]

/-- Why there is no text to check: where it should have come from, and the system's words. -/
structure ReadFailure where
  source : Source
  cause : String
  deriving DecidableEq, Repr

/-- What could not be read. -/
def ReadFailure.message (f : ReadFailure) : String :=
  match f.source with
  | .standardInput => "failed to read standard input"
  | .file path => "failed to read '" ++ path ++ "'"

/-- The lines that tell of a failure. -/
def ReadFailure.lines (f : ReadFailure) : List String :=
  ["Error: " ++ f.message, "  caused by: " ++ f.cause]

/-! ## Checking -/

/-- The work of a session before anything is printed. -/
structure Work where
  log : List LogEntry
  transcript : Transcript

/-- Checks the bytes that were read. -/
def work (o : Options) (bytes : List UInt8) : Work :=
  let text := Text.Utf8.decode bytes
  let final := checked text o.settings
  let reading := match o.source with
    | .file path => [LogEntry.readSource path bytes.length]
    | .standardInput => []
  { log :=
      reading ++ [.checking o.settings text.utf8ByteSize] ++
        final.journal.toList.filterMap LogEntry.ofEvent? ++
        [.done final.transcript.errorCount]
    transcript := final.transcript }

/-- The exit code after everything was printed. -/
def exitCode (o : Options) (t : Transcript) : Nat := if o.strict && !t.isClean then 1 else 0

/-- The line that tells of an output that failed, and the exit code. -/
def writeFailure : WriteError → List String × Nat
  | .closed => ([], 0)
  | .failed cause => (["Error: failed to write output: " ++ cause], 2)

/-! ## The whole session -/

/-- What can be seen of a session. -/
structure Outcome where
  exit : Nat
  output : List String := []
  errors : List String := []
  log : List String := []
  deriving DecidableEq, Repr

/-- What a session depends on beside its arguments. -/
structure Surroundings where
  files : FileTree := {}
  standardInput : Except ReadError (List UInt8) := .ok []
  /-- The filter of the log as it is set for all programs. -/
  logSetting : Option String := none
  /-- What keeps standard output from taking anything. -/
  brokenOutput : Option WriteError := none

/-- The bytes to check. -/
def Surroundings.read (s : Surroundings) (source : Source) : Except ReadFailure (List UInt8) :=
  let content := match source with
    | .standardInput => s.standardInput
    | .file path => s.files.read path
  content.mapError fun e => ⟨source, e.message⟩

/-- A session that checks what the options name. Standard error is not a terminal, so only `always`
asks for color. -/
def checkSession (o : Options) (s : Surroundings) : Outcome :=
  match s.read o.source with
  | .error f => { exit := 2, errors := f.lines }
  | .ok bytes =>
    let w := work o bytes
    let log := (LogFilter.choose s.logSetting o.verbosity).lines w.log
    let arrived := deliver s.brokenOutput (report (o.color == .always) o w.transcript)
    match arrived.failure with
    | none =>
      { exit := exitCode o w.transcript, output := arrived.output, errors := arrived.errors, log }
    | some e =>
      { exit := (writeFailure e).2
        output := arrived.output
        errors := arrived.errors ++ (writeFailure e).1
        log }

/-- A session: an outcome, or what is wrong with the arguments. -/
def session (args : List String) (s : Surroundings) : Except UsageError Outcome :=
  match parseArguments args with
  | .ok o => .ok (checkSession o s)
  | .error (.fault e) => .error e
  | .error .help => .ok { exit := 0, output := if s.brokenOutput.isSome then [] else helpLines }
  | .error .version =>
    .ok { exit := 0, output := if s.brokenOutput.isSome then [] else [versionLine] }

end MiniPascal.CommandLine
