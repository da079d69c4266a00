import MiniPascal.CommandLine.Session

/-!
# What a session prints

A session that can read its text and print what it has to say prints the check of the text: the
traces on one stream, the diagnostics on the other, and it says by its exit code whether there are
any. The options tell how this looks, and nothing else has a part in it: neither where the text came
from nor how much of the log is shown.

* `linesOn` — the lines that are to be written on a stream.
* `traceLine`, `showDiagnostic`, `summaryLine` — what a reader sees, letter by letter.
* `Outcome.Shows` — an outcome shows a transcript, in the way that the options ask for.
* `Delivery.outcome` — what is seen of a session, by what has arrived of its report.

**Theorem (`deliver_none`).** Where nothing fails, all lines arrive on their streams, in order.

**Theorem (`linesOn_output_writes`, `linesOn_errors_writes`).** On each stream there are to be the
texts of a transcript that are for it. Where nothing is left out and nothing is styled, both together
are the transcript line by line (`lines_writes`).

**Theorem (`session_shows`).** A session shows the check of the text that its bytes stand for.
-/

namespace MiniPascal.CommandLine

/-! ## Lines and streams -/

/-- The line that is to be written, if it is for the stream. -/
def Write.lineOn? (s : Stream) (w : Write) : Option String :=
  if w.stream = s then some w.line else none

/-- The lines that are to be written on a stream. -/
def linesOn (s : Stream) (ws : List Write) : List String := ws.filterMap (Write.lineOn? s)

@[simp] theorem linesOn_append (s : Stream) (ws ws' : List Write) :
    linesOn s (ws ++ ws') = linesOn s ws ++ linesOn s ws' := List.filterMap_append

/-- **Where nothing fails, everything arrives.** -/
theorem deliver_none (ws : List Write) :
    deliver none ws = { output := linesOn .output ws, errors := linesOn .errors ws } := by
  induction ws with
  | nil => rfl
  | cons w ws ih =>
    obtain ⟨stream, line⟩ := w
    cases stream <;> simp [deliver, ih, linesOn, Write.lineOn?]

/-! ## How lines look -/

/-- The line for a trace: it tells what is parsed. -/
def traceLine (t : Trace) : String :=
  "Parsing " ++
    match t with
    | .compoundBegin => "BEGIN"
    | .separator => "SEMICOLON"
    | .compoundEnd => "END"
    | .command first => "command with token: " ++ first.label
    | .assignment => "assignment"
    | .expression => "expression"

/-- The line for a diagnostic: it tells what should be there and what is. -/
def diagnosticLine (e : Diagnostic) : String :=
  "Erro de Sintaxe: " ++
    match e with
    | .expected required found => "esperado " ++ required.label ++ " mas recebeu " ++ found.label
    | .expectedType found => "esperado type mas recebeu " ++ found.label
    | .unexpected found => "inesperado token " ++ found.label
    | .expectedFactor found => "Esperado UNKNOWN mas recebeu " ++ found.label
    | .nestingTooDeep limit => "aninhamento excede o limite de " ++ toString limit

/-- A diagnostic as it is printed: in red, if color is wanted. -/
def showDiagnostic (o : Options) (e : Diagnostic) : String :=
  if o.color = .always then "\x1b[38;5;9m" ++ diagnosticLine e ++ "\x1b[39m" else diagnosticLine e

/-- The line that tells the number of diagnostics: in bold, if there are any and color is wanted. -/
def summaryLine (o : Options) (t : Transcript) : String :=
  let line :=
    if t.errorCount = 1 then "1 diagnostic" else toString t.errorCount ++ " diagnostics"
  if o.color = .always ∧ 0 < t.errorCount then "\x1b[1m" ++ line ++ "\x1b[0m" else line

/-- The outcome shows the transcript, in the way that the options ask for. -/
structure Outcome.Shows (out : Outcome) (o : Options) (t : Transcript) : Prop where
  output : out.output = if o.quiet then [] else t.traces.map traceLine
  errors : out.errors =
    t.diagnostics.map (showDiagnostic o) ++ if o.summary then [summaryLine o t] else []
  exit : out.exit = if o.strict ∧ 0 < t.errorCount then 1 else 0

/-- The outcome without the log. -/
def Outcome.withoutLog (out : Outcome) : Outcome := { out with log := [] }

theorem Outcome.Shows.withoutLog_eq {out out' : Outcome} {o : Options} {t : Transcript}
    (h : out.Shows o t) (h' : out'.Shows o t) : out.withoutLog = out'.withoutLog := by
  simp only [withoutLog, h.output, h.errors, h.exit, h'.output, h'.errors, h'.exit]

theorem text_eq_traceLine (t : Trace) : t.text = traceLine t := by
  unfold Trace.text traceLine
  cases t <;> simp only [← String.append_assoc, String.reduceAppend]

theorem message_eq_diagnosticLine (e : Diagnostic) : e.message = diagnosticLine e := by
  unfold Diagnostic.message diagnosticLine
  cases e <;> simp only [← String.append_assoc, String.reduceAppend]

theorem countText_eq (n : Nat) :
    countText n = if n = 1 then "1 diagnostic" else toString n ++ " diagnostics" := by
  unfold countText
  split
  · next one =>
    subst one
    rfl
  · rfl

/-! ## Reports -/

section

variable (styled quiet : Bool) (o : Options) (t : Transcript)

theorem writeOf?_trace (tr : Trace) :
    writeOf? styled quiet (.trace tr) = if quiet then none else some ⟨.output, traceLine tr⟩ :=
  text_eq_traceLine tr ▸ rfl

theorem writeOf?_diagnostic (e : Diagnostic) :
    writeOf? (o.color == .always) quiet (.diagnostic e) = some ⟨.errors, showDiagnostic o e⟩ := by
  simp [writeOf?, Line.stream, Line.text, red, showDiagnostic, message_eq_diagnosticLine]

/-- Of the lines of a transcript, standard output is to take those that are for it, or none. -/
theorem linesOn_output_writes :
    linesOn .output (t.lines.filterMap (writeOf? styled quiet)) =
      if quiet then [] else t.textsOn .output := by
  obtain ⟨lines⟩ := t
  induction lines with
  | nil => exact (ite_self _).symm
  | cons l lines ih =>
    cases l with
    | diagnostic e => exact ih
    | trace tr =>
      cases quiet with
      | false => exact congrArg (tr.text :: ·) ih
      | true => exact ih

/-- Standard error is to take those that are for it, whether or not the others are printed. -/
theorem linesOn_errors_writes :
    linesOn .errors (t.lines.filterMap (writeOf? styled quiet)) =
      (t.textsOn .errors).map fun text => if styled then red text else text := by
  obtain ⟨lines⟩ := t
  induction lines with
  | nil => rfl
  | cons l lines ih =>
    cases l with
    | diagnostic e => exact congrArg (_ :: ·) ih
    | trace tr => cases quiet <;> exact ih

/-- **Line by line.** Where nothing is left out and nothing is styled, what is printed is the
transcript, in its order. -/
theorem lines_writes : (t.lines.filterMap (writeOf? false false)).map Write.line = t.texts := by
  obtain ⟨lines⟩ := t
  induction lines with
  | nil => rfl
  | cons l lines ih => cases l <;> exact congrArg _ ih

theorem not_isClean_iff : (!t.isClean) = true ↔ 0 < t.errorCount := by
  simp [Transcript.isClean, Nat.pos_iff_ne_zero]

/-- What is printed for the number of diagnostics. -/
def summaryWrites : List Write := if o.summary then [⟨.errors, summaryLine o t⟩] else []

theorem linesOn_summaryWrites (s : Stream) :
    linesOn s (summaryWrites o t) =
      if s = .errors ∧ o.summary then [summaryLine o t] else [] := by
  unfold summaryWrites
  cases s <;> split <;> simp_all [linesOn, Write.lineOn?]

theorem report_eq :
    report (o.color == .always) o t =
      t.lines.filterMap (writeOf? (o.color == .always) o.quiet) ++ summaryWrites o t := by
  simp only [report, summaryWrites, summaryLine, countText_eq, bold, Bool.and_eq_true, beq_iff_eq,
    not_isClean_iff]

/-- On standard output there are the traces, or nothing. -/
theorem linesOn_output_report :
    linesOn .output (report (o.color == .always) o t) =
      if o.quiet then [] else t.traces.map traceLine := by
  have texts : Trace.text = traceLine := funext text_eq_traceLine
  rw [report_eq, linesOn_append, linesOn_output_writes, linesOn_summaryWrites,
    Transcript.textsOn_output, texts]
  simp

/-- On standard error there are the diagnostics, and then their number. -/
theorem linesOn_errors_report :
    linesOn .errors (report (o.color == .always) o t) =
      t.diagnostics.map (showDiagnostic o) ++ if o.summary then [summaryLine o t] else [] := by
  rw [report_eq, linesOn_append, linesOn_errors_writes, linesOn_summaryWrites,
    Transcript.textsOn_errors, List.map_map]
  simp [showDiagnostic, red, message_eq_diagnosticLine, Function.comp_def]

end

/-! ## Sessions -/

/-- The bytes can be read: from the file of that name, or from standard input if there is no name or
it is a dash. -/
def Surroundings.Provides (s : Surroundings) (file : Option String) (bytes : List UInt8) : Prop :=
  match file with
  | none => s.standardInput = .ok bytes
  | some path => (if isDash path then s.standardInput else s.files.read path) = .ok bytes

theorem Surroundings.Provides.read_eq {s : Surroundings} {o : Options} {bytes : List UInt8}
    (h : s.Provides o.file bytes) : s.read o.source = .ok bytes := by
  have found {source : Source} {content : Except ReadError (List UInt8)} (ok : content = .ok bytes)
      (same : s.read source = content.mapError fun e => ⟨source, e.message⟩) :
      s.read source = .ok bytes := by
    rw [same, ok]
    rfl
  unfold Provides at h
  unfold Options.source
  cases hf : o.file with
  | none =>
    rw [hf] at h
    exact found h rfl
  | some path =>
    rw [hf] at h
    have h : (if isDash path then s.standardInput else s.files.read path) = .ok bytes := h
    show s.read (if isDash path then .standardInput else .file path) = .ok bytes
    by_cases dash : isDash path
    · rw [if_pos dash] at h ⊢
      exact found h rfl
    · rw [if_neg dash] at h ⊢
      exact found h rfl

/-- What is seen of a session when this has arrived, where its exit code would be `exit` if nothing
had failed. -/
def Delivery.outcome (arrived : Delivery) (exit : Nat) (log : List String) : Outcome :=
  match arrived.failure with
  | none => { exit, output := arrived.output, errors := arrived.errors, log }
  | some e =>
    { exit := (writeFailure e).2
      output := arrived.output
      errors := arrived.errors ++ (writeFailure e).1
      log }

@[simp] theorem Delivery.log_outcome (arrived : Delivery) (exit : Nat) (log : List String) :
    (arrived.outcome exit log).log = log := by
  unfold outcome
  split <;> rfl

@[simp] theorem Delivery.withoutLog_outcome (arrived : Delivery) (exit : Nat) (log : List String) :
    (arrived.outcome exit log).withoutLog = arrived.outcome exit [] := by
  unfold outcome
  split <;> rfl

variable {args : List String} {o : Options} {s : Surroundings} {bytes : List UInt8}

/-- A session that reads its text is seen by what arrives of its report, and by its log. -/
theorem checkSession_of_read (h : s.read o.source = .ok bytes) :
    checkSession o s =
      (deliver s.brokenOutput (report (o.color == .always) o
        (check (Text.Utf8.decode bytes) o.settings))).outcome
        (exitCode o (check (Text.Utf8.decode bytes) o.settings))
        ((LogFilter.choose s.logSetting o.verbosity).lines (work o bytes).log) := by
  unfold checkSession
  rw [h]
  rfl

/-- A session that reads its text and can print shows the check of the text. -/
theorem checkSession_shows (readable : s.Provides o.file bytes) (writes : s.brokenOutput = none) :
    (checkSession o s).Shows o (check (Text.Utf8.decode bytes) o.settings) := by
  rw [checkSession_of_read readable.read_eq, writes, deliver_none]
  refine ⟨linesOn_output_report .., linesOn_errors_report .., ?_⟩
  simp only [Delivery.outcome, exitCode, Bool.and_eq_true, not_isClean_iff]

/-- **The output is the check.** Where the bytes to check can be read and all that is to be printed
can be written, a session prints the traces of the check unless it is quiet; its diagnostics, in red
if color is wanted; and their number if it is wanted, in bold if there are any and color is wanted.
It fails if it is strict and there are diagnostics. So a file and standard input, or whatever is
said about the log, make no difference where the bytes and the other options are the same. -/
theorem session_shows (parsed : parseArguments args = .ok o) (readable : s.Provides o.file bytes)
    (writes : s.brokenOutput = none) :
    ∃ out, session args s = .ok out ∧
      out.Shows o (check (Text.Utf8.decode bytes) o.settings) ∧
      ∀ args' s' file verbosity, parseArguments args' = .ok { o with file, verbosity } →
        s'.Provides file bytes → s'.brokenOutput = none →
          ∃ out', session args' s' = .ok out' ∧ out'.withoutLog = out.withoutLog := by
  have shows := checkSession_shows readable writes
  refine ⟨checkSession o s, by simp [session, parsed], shows, ?_⟩
  intro args' s' file verbosity parsed' readable' writes'
  let o' : Options := { o with file, verbosity }
  have shows' := checkSession_shows (o := o') readable' writes'
  have same : (checkSession o' s').Shows o (check (Text.Utf8.decode bytes) o.settings) :=
    ⟨shows'.output, shows'.errors, shows'.exit⟩
  exact ⟨checkSession o' s', by simp [session, parsed', o'], same.withoutLog_eq shows⟩

/-- The equals sign is no sign for an assignment, in a file as from standard input. -/
theorem session_shows_equals :
    ∃ out, session ["--strict", "--summary", "--color=always"]
        { standardInput := .ok "program p; begin x = 1; y := 2 end.".toUTF8.toList } = .ok out ∧
      out.output = ["Parsing BEGIN", "Parsing command with token: IDENTIFIER",
        "Parsing assignment", "Parsing expression", "Parsing SEMICOLON",
        "Parsing command with token: IDENTIFIER", "Parsing assignment", "Parsing expression",
        "Parsing END"] ∧
      out.errors = ["\x1b[38;5;9mErro de Sintaxe: esperado ASSIGN mas recebeu EQUAL\x1b[39m",
        "\x1b[1m1 diagnostic\x1b[0m"] ∧
      out.exit = 1 ∧
      ∃ out', session ["-v", "--color=always", "--strict", "--summary", "p.pas"]
        { files := FileTree.insert {} "p.pas"
            (.file "program p; begin x = 1; y := 2 end.".toUTF8.toList)
          logSetting := some "off" } = .ok out' ∧
          out'.withoutLog = out.withoutLog := by
  let bytes := "program p; begin x = 1; y := 2 end.".toUTF8.toList
  let o : Options := { strict := true, summary := true, color := .always }
  have told : (check (Text.Utf8.decode bytes) o.settings).lines =
      [.trace .compoundBegin, .trace (.command .identifier), .trace .assignment,
        .diagnostic (.expected .assign .equal), .trace .expression, .trace .separator,
        .trace (.command .identifier), .trace .assignment, .trace .expression,
        .trace .compoundEnd] := by decide +kernel
  have names : FileTree.namesOf "p.pas" = ["p.pas"] := by
    simp +decide [FileTree.namesOf, String.splitOn, String.splitOnAux]
  have found : (FileTree.insert {} "p.pas" (.file bytes)).read "p.pas" = .ok bytes := by
    simp [FileTree.read, FileTree.insert, FileTree.resolve, names]
    rfl
  let s : Surroundings :=
    { files := FileTree.insert {} "p.pas" (.file bytes), logSetting := some "off" }
  have readable : s.Provides (some "p.pas") bytes := by
    simpa [Surroundings.Provides, isDash, names] using found
  have parsed : parseArguments ["--strict", "--summary", "--color=always"] = .ok o := rfl
  obtain ⟨out, done, shows, routes⟩ :=
    session_shows (s := { standardInput := .ok bytes }) parsed rfl rfl
  refine ⟨out, done, ?_, ?_, ?_, routes _ s (some "p.pas") 1 rfl readable rfl⟩
  · rw [shows.output, Transcript.traces, told]
    decide +kernel
  · rw [shows.errors, Transcript.diagnostics, summaryLine, Transcript.errorCount,
      Transcript.diagnostics, told]
    decide +kernel
  · rw [shows.exit, Transcript.errorCount, Transcript.diagnostics, told]
    rfl

end MiniPascal.CommandLine
