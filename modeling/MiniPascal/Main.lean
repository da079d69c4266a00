import MiniPascal.CommandLine.Session

/-!
# The program

Reads the arguments, the file or standard input, and the setting of the log, and prints what a
session has to say. All that is decided is decided by `MiniPascal.CommandLine`.
-/

namespace MiniPascal.CommandLine

/-- The operating system's words for a failure. -/
def systemText : IO.Error → String
  | .noFileOrDirectory .. => ReadError.notFound.message
  | .inappropriateType _ 20 _ => ReadError.notDirectory.message
  | .inappropriateType _ 21 _ => ReadError.isDirectory.message
  | .permissionDenied .. => "Permission denied (os error 13)"
  | e => toString e

/-- Reads a stream to its end. -/
partial def readAll (s : IO.FS.Stream) (soFar : ByteArray) : IO ByteArray := do
  let more ← s.read 0x10000
  if more.isEmpty then return soFar
  readAll s (soFar ++ more)

/-- Reads the bytes to check. -/
def readSource (source : Source) : IO (Except ReadFailure (List UInt8)) := do
  try
    let bytes ← match source with
      | .standardInput => readAll (← IO.getStdin) .empty
      | .file path => IO.FS.readBinFile path
    return .ok bytes.data.toList
  catch e => return .error ⟨source, systemText e⟩

def printLines (s : IO.FS.Stream) (lines : List String) : IO Unit :=
  for line in lines do s.putStrLn line

/-- Writes a line, and tells what kept standard output from taking it. -/
def write (w : Write) : IO (Option WriteError) := do
  match w.stream with
  | .errors =>
    (← IO.getStderr).putStrLn w.line
    return none
  | .output =>
    try
      let out ← IO.getStdout
      out.putStrLn w.line
      out.flush
      return none
    catch
      | .resourceVanished .. => return some .closed
      | e => return some (.failed (systemText e))

/-- Prints a report, and gives the exit code. -/
def printReport (o : Options) (t : Transcript) (styled : Bool) : IO Nat := do
  for w in report styled o t do
    if let some e ← write w then
      printLines (← IO.getStderr) (writeFailure e).1
      return (writeFailure e).2
  return exitCode o t

/-- The environment variable that sets the filter of the log. Users set it for every program
that keeps such a log, so its name is fixed. -/
def logVariable : String := "RUST_LOG"

/-- Checks what the options name. -/
def checkFrom (o : Options) : IO Nat := do
  let err ← IO.getStderr
  match ← readSource o.source with
  | .error f =>
    printLines err f.lines
    return 2
  | .ok bytes =>
    let w := work o bytes
    printLines err ((LogFilter.choose (← IO.getEnv logVariable) o.verbosity).lines w.log)
    let styled ← match o.color with
      | .always => pure true
      | .never => pure false
      | .auto => err.isTty
    printReport o w.transcript styled

end MiniPascal.CommandLine

open MiniPascal.CommandLine in
/-- The program: its exit code is that of the session. -/
def main (args : List String) : IO UInt32 := do
  match parseArguments args with
  | .error (.fault e) =>
    (← IO.getStderr).putStrLn ("error: " ++ e.message)
    return 2
  | .error .help =>
    printLines (← IO.getStdout) helpLines
    return 0
  | .error .version =>
    printLines (← IO.getStdout) [versionLine]
    return 0
  | .ok o => return (← checkFrom o).toUInt32
