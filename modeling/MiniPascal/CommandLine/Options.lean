import MiniPascal.FileTree
import MiniPascal.Settings
import MiniPascal.Text.Numeral

/-!
# Options

What the program is asked to do, read from its arguments.

Arguments are read from left to right, and the first thing that settles the matter does so: a fault,
or a request for the version or the help, which is answered at once. An option is written `--name`,
or with a dash and a letter; letters may share a dash. A value follows its name behind an equals
sign or as the next argument; there it must not look like an option, but a dash alone may stand.
Behind `--` everything is a file name. Only `--verbose` may be given more than once.
-/

namespace MiniPascal.CommandLine

/-- When diagnostics are printed in color. `auto` asks whether they go to a terminal. -/
inductive Color where
  | auto
  | always
  | never
  deriving DecidableEq, Repr

namespace Color

def word : Color → String
  | auto => "auto"
  | always => "always"
  | never => "never"

def all : List Color := [auto, always, never]

def ofWord? (s : String) : Option Color := all.find? (·.word == s)

end Color

/-- What a check from the command line is asked to do. -/
structure Options where
  /-- The file to check. Without one, standard input is checked. -/
  file : Option String := none
  settings : Settings := {}
  /-- Diagnostics make the program fail. -/
  strict : Bool := false
  /-- Traces are not printed. -/
  quiet : Bool := false
  /-- The number of diagnostics is printed at the end. -/
  summary : Bool := false
  color : Color := .auto
  /-- How often more of the log was asked for. -/
  verbosity : Nat := 0
  deriving DecidableEq, Repr, Inhabited

/-- The options there are. -/
inductive Flag where
  | dialect
  | recovery
  | maxNesting
  | strict
  | quiet
  | summary
  | color
  | verbose
  | help
  | version
  deriving DecidableEq, Repr

namespace Flag

def all : List Flag :=
  [dialect, recovery, maxNesting, strict, quiet, summary, color, verbose, help, version]

def name : Flag → String
  | dialect => "dialect"
  | recovery => "recovery"
  | maxNesting => "max-nesting"
  | strict => "strict"
  | quiet => "quiet"
  | summary => "summary"
  | color => "color"
  | verbose => "verbose"
  | help => "help"
  | version => "version"

/-- The letter that stands for the name. -/
def letter? : Flag → Option Char
  | quiet => some 'q'
  | verbose => some 'v'
  | help => some 'h'
  | version => some 'V'
  | _ => none

def takesValue : Flag → Bool
  | dialect | recovery | maxNesting | color => true
  | _ => false

def ofName? (s : String) : Option Flag := all.find? (·.name == s)

def ofLetter? (c : Char) : Option Flag := all.find? (·.letter? == some c)

end Flag

/-- What can be wrong with the arguments. -/
inductive UsageError where
  | unknownOption (given : String)
  | unexpectedValue (f : Flag)
  | missingValue (f : Flag)
  | invalidValue (f : Flag) (given : String)
  | repeated (f : Flag)
  | emptyFileName
  | secondFile (given : String)
  deriving DecidableEq, Repr

/-- What is wrong, in words. -/
def UsageError.message : UsageError → String
  | unknownOption given => "unexpected argument '" ++ given ++ "' found"
  | unexpectedValue f => "unexpected value for '--" ++ f.name ++ "' found"
  | missingValue f => "a value is required for '--" ++ f.name ++ "' but none was supplied"
  | invalidValue f given => "invalid value '" ++ given ++ "' for '--" ++ f.name ++ "'"
  | repeated f => "the argument '--" ++ f.name ++ "' cannot be used multiple times"
  | emptyFileName => "a value is required for '[FILE]' but none was supplied"
  | secondFile given => "unexpected argument '" ++ given ++ "' found"

/-- What ends the reading of the arguments early. -/
inductive Stop where
  | fault (e : UsageError)
  | help
  | version
  deriving DecidableEq, Repr

/-- The arguments read so far: what they ask for, and which options have been given. -/
structure Reading where
  options : Options := {}
  given : List Flag := []
  deriving Repr, Inhabited

/-! ## Values -/

/-- The options with the value given for a flag. -/
def Options.set? (o : Options) (f : Flag) (value : String) : Option Options :=
  match f with
  | .dialect => do
    let dialect ← Dialect.ofWord? value
    return { o with settings := { o.settings with dialect } }
  | .recovery => do
    let recovery ← Recovery.ofWord? value
    return { o with settings := { o.settings with recovery } }
  | .maxNesting => do
    let maxNesting ← Text.Numeral.word? value
    return { o with settings := { o.settings with maxNesting } }
  | .color => do
    let color ← Color.ofWord? value
    return { o with color }
  | _ => none

/-! ## Single arguments -/

namespace Reading

/-- Puts a flag among those that were given. A second time is a fault. -/
def once (r : Reading) (f : Flag) : Except Stop Reading :=
  if f ∈ r.given then .error (.fault (.repeated f)) else .ok { r with given := f :: r.given }

/-- Takes a flag with a value. -/
def setValue (r : Reading) (f : Flag) (value : String) : Except Stop Reading := do
  match r.options.set? f value with
  | some options => return { (← r.once f) with options }
  | none => .error (.fault (.invalidValue f value))

/-- Takes a flag without a value. -/
def setFlag (r : Reading) (f : Flag) : Except Stop Reading :=
  match f with
  | .strict => return { (← r.once f) with options := { r.options with strict := true } }
  | .quiet => return { (← r.once f) with options := { r.options with quiet := true } }
  | .summary => return { (← r.once f) with options := { r.options with summary := true } }
  | .verbose => .ok { r with options := { r.options with verbosity := r.options.verbosity + 1 } }
  | .help => .error .help
  | .version => .error .version
  | _ => .error (.fault (.missingValue f))

/-- Takes a letter behind a dash. -/
def setLetter (r : Reading) (c : Char) : Except Stop Reading :=
  match Flag.ofLetter? c with
  | some f => r.setFlag f
  | none => .error (.fault (.unknownOption (String.ofList ['-', c])))

/-- Takes a file name. -/
def setFile (r : Reading) (name : String) : Except Stop Reading :=
  if r.options.file.isSome then .error (.fault (.secondFile name))
  else if name = "" then .error (.fault .emptyFileName)
  else .ok { r with options := { r.options with file := some name } }

end Reading

/-! ## All arguments -/

/-- The forms of an argument. -/
inductive Form where
  /-- `--`: no options follow. -/
  | endOfOptions
  /-- `--name` or `--name=value`. -/
  | long (name : String) (value : Option String)
  /-- A dash and letters. -/
  | short (letters : List Char)
  /-- A value or a file name. A dash alone is one. -/
  | plain
  deriving DecidableEq, Repr

/-- The form of an argument. -/
def formOf (arg : String) : Form :=
  match arg.toList with
  | ['-', '-'] => .endOfOptions
  | '-' :: '-' :: cs =>
    let name := String.ofList (cs.takeWhile (· != '='))
    match cs.dropWhile (· != '=') with
    | [] => .long name none
    | _ :: value => .long name (some (String.ofList value))
  | '-' :: c :: cs => .short (c :: cs)
  | _ => .plain

/-- Reads the arguments from left to right. -/
def Reading.readAll (r : Reading) : List String → Except Stop Reading
  | [] => .ok r
  | arg :: rest =>
    match formOf arg with
    | .endOfOptions => rest.foldlM Reading.setFile r
    | .short letters => do (← letters.foldlM Reading.setLetter r).readAll rest
    | .plain => do (← r.setFile arg).readAll rest
    | .long name value =>
      match Flag.ofName? name, value with
      | none, _ => .error (.fault (.unknownOption arg))
      | some f, some v =>
        if f.takesValue then do (← r.setValue f v).readAll rest
        else .error (.fault (.unexpectedValue f))
      | some f, none =>
        if f.takesValue then
          match rest with
          | [] => .error (.fault (.missingValue f))
          | v :: rest =>
            if formOf v = .plain then do (← r.setValue f v).readAll rest
            else .error (.fault (.missingValue f))
        else do (← r.setFlag f).readAll rest

/-- What the arguments ask for. -/
def parseArguments (args : List String) : Except Stop Options :=
  return (← Reading.readAll {} args).options

/-! ## Where the text comes from -/

/-- Where the text to check is read from. -/
inductive Source where
  | standardInput
  | file (path : String)
  deriving DecidableEq, Repr

/-- A path that is a dash and nothing more stands for standard input. What adds nothing to a path,
slashes behind it and dots between them, adds nothing to the dash. -/
def isDash (path : String) : Bool :=
  match FileTree.namesOf path with
  | first :: more => first == "-" && more.all fun name => name == "" || name == "."
  | [] => false

def Options.source (o : Options) : Source :=
  match o.file with
  | some path => if isDash path then .standardInput else .file path
  | none => .standardInput

end MiniPascal.CommandLine
