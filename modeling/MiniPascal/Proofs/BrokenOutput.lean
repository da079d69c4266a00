import MiniPascal.Proofs.Printing

/-!
# Sessions that cannot print

Standard output takes its lines one by one, and one that takes nothing fails at the first line that
is written to it. Up to there a session goes as it would otherwise; behind it nothing is printed any
more.

* `leadingDiagnostics` — the diagnostics in front of the first trace.
* `Outcome.CutShort` — what is seen of a session that has failed at its first trace.

**Theorem (`deliver_of_errors`).** Where nothing goes to standard output, it cannot fail.

**Theorem (`deliver_lines`).** Where a trace is to be printed, the diagnostics in front of the first
one arrive and nothing else does.

For whole sessions this is `session_cut`: the output is cut at the first trace and nowhere else.
-/

namespace MiniPascal.CommandLine

/-! ## Lines that arrive -/

/-- Where nothing goes to standard output, it cannot fail. -/
theorem deliver_of_errors {ws : List Write} (h : ∀ w ∈ ws, w.stream = .errors)
    (broken : Option WriteError) : deliver broken ws = deliver none ws := by
  induction ws with
  | nil => rfl
  | cons w ws ih =>
    obtain ⟨here, later⟩ := List.forall_mem_cons.1 h
    simp only [deliver, here, ih later]

/-- The diagnostics in front of the first trace, or all of them if there is no trace. -/
def leadingDiagnostics : List Line → List Diagnostic
  | .diagnostic e :: ls => e :: leadingDiagnostics ls
  | _ => []

/-- **Where a trace is to be printed, nothing arrives but what is in front of it.** -/
theorem deliver_lines {o : Options} {ls : List Line} (ws : List Write) (cause : WriteError)
    (loud : ¬o.quiet) (traces : ls.filterMap Line.trace? ≠ []) :
    deliver (some cause) (ls.filterMap (writeOf? (o.color == .always) o.quiet) ++ ws) =
      { errors := (leadingDiagnostics ls).map (showDiagnostic o), failure := some cause } := by
  induction ls with
  | nil => exact absurd rfl traces
  | cons l ls ih =>
    cases l with
    | trace t => simp [writeOf?_trace, loud, deliver, leadingDiagnostics]
    | diagnostic e => simp [writeOf?_diagnostic, deliver, ih traces, leadingDiagnostics]

section

variable {o : Options} {t : Transcript}

/-- A quiet session writes nothing to standard output, nor does one that has no traces to print. -/
theorem stream_of_mem_report (silent : o.quiet ∨ t.traces = []) :
    ∀ w ∈ report (o.color == .always) o t, w.stream = .errors := by
  rw [report_eq]
  refine List.forall_mem_append.2 ⟨?_, ?_⟩
  · intro w hw
    obtain ⟨l, hl, shown⟩ := List.mem_filterMap.1 hw
    cases l with
    | diagnostic e =>
      obtain rfl := Option.some.inj shown
      rfl
    | trace tr =>
      rcases silent with quiet | none
      · simp [writeOf?_trace, quiet] at shown
      · have absent := List.filterMap_eq_nil_iff.1 none _ hl
        cases absent
  · unfold summaryWrites
    split <;> simp

end

/-! ## Sessions that are cut short -/

/-- What is seen of a session whose output has failed for this cause at the first trace. A reader
who has gone away is no failure, and nothing is said about it. -/
structure Outcome.CutShort (out : Outcome) (o : Options) (t : Transcript) (cause : WriteError) :
    Prop where
  output : out.output = []
  errors : out.errors = (leadingDiagnostics t.lines).map (showDiagnostic o) ++
    match cause with
    | .closed => []
    | .failed words => ["Error: failed to write output: " ++ words]
  exit : out.exit =
    match cause with
    | .closed => 0
    | .failed _ => 2

variable {args : List String} {o : Options} {s : Surroundings} {bytes : List UInt8}
  {cause : WriteError}

/-- Where nothing goes to standard output, its state makes no difference. -/
theorem checkSession_of_silent (readable : s.Provides o.file bytes)
    (silent : o.quiet ∨ (check (Text.Utf8.decode bytes) o.settings).traces = []) :
    checkSession o s = checkSession o { s with brokenOutput := none } := by
  have readable' : { s with brokenOutput := none }.Provides o.file bytes := readable
  rw [checkSession_of_read readable.read_eq, checkSession_of_read readable'.read_eq]
  exact congrArg (Delivery.outcome · _ _)
    (deliver_of_errors (stream_of_mem_report silent) s.brokenOutput)

/-- A session whose output fails at the first trace is cut short there. -/
theorem checkSession_cutShort (readable : s.Provides o.file bytes)
    (broken : s.brokenOutput = some cause)
    (loud : ¬(o.quiet ∨ (check (Text.Utf8.decode bytes) o.settings).traces = [])) :
    (checkSession o s).CutShort o (check (Text.Utf8.decode bytes) o.settings) cause := by
  obtain ⟨talks, traces⟩ := not_or.1 loud
  rw [checkSession_of_read readable.read_eq, broken, report_eq, deliver_lines _ cause talks traces]
  cases cause with
  | closed => exact ⟨rfl, rfl, rfl⟩
  | failed words => exact ⟨rfl, rfl, rfl⟩

/-- **The output is cut at the first trace and nowhere else.** If standard output takes nothing, a
session that has no traces to print, or is quiet, goes as it would with one that takes everything.
In all others the diagnostics in front of the first trace are printed, and no other line of the
check; and then it depends on the cause, but not on the options, whether the session fails. -/
theorem session_cut (parsed : parseArguments args = .ok o) (readable : s.Provides o.file bytes)
    (broken : s.brokenOutput = some cause) :
    ∃ out whole, session args s = .ok out ∧
      session args { s with brokenOutput := none } = .ok whole ∧
      whole.Shows o (check (Text.Utf8.decode bytes) o.settings) ∧
      (o.quiet ∨ (check (Text.Utf8.decode bytes) o.settings).traces = [] → out = whole) ∧
      (¬(o.quiet ∨ (check (Text.Utf8.decode bytes) o.settings).traces = []) →
        out.CutShort o (check (Text.Utf8.decode bytes) o.settings) cause ∧
          out.log = whole.log) := by
  let s' : Surroundings := { s with brokenOutput := none }
  have readable' : s'.Provides o.file bytes := readable
  refine ⟨checkSession o s, checkSession o s', by simp [session, parsed],
    by simp [session, parsed, s'], checkSession_shows readable' rfl,
    checkSession_of_silent readable, fun loud => ?_⟩
  refine ⟨checkSession_cutShort readable broken loud, ?_⟩
  rw [checkSession_of_read readable.read_eq, checkSession_of_read readable'.read_eq,
    Delivery.log_outcome, Delivery.log_outcome]

/-- Behind a fault that comes before the first trace neither the other faults nor their number are
told; a device that is full makes the session fail, and a reader who has gone away does not. -/
theorem session_cut_two_faults :
    (∃ out, session ["--strict", "--summary"]
        { standardInput := .ok "program 1; begin x = 1 end.".toUTF8.toList
          brokenOutput := some .full } = .ok out ∧
      out.output = [] ∧
      out.errors = ["Erro de Sintaxe: esperado IDENTIFIER mas recebeu NUM_INTEGER",
        "Error: failed to write output: No space left on device (os error 28)"] ∧
      out.exit = 2) ∧
    ∃ out, session ["--strict", "--summary"]
        { standardInput := .ok "program 1; begin x = 1 end.".toUTF8.toList
          brokenOutput := some .closed } = .ok out ∧
      out.output = [] ∧
      out.errors = ["Erro de Sintaxe: esperado IDENTIFIER mas recebeu NUM_INTEGER"] ∧
      out.exit = 0 := by
  let bytes := "program 1; begin x = 1 end.".toUTF8.toList
  let o : Options := { strict := true, summary := true }
  have parsed : parseArguments ["--strict", "--summary"] = .ok o := rfl
  have loud : ¬(o.quiet ∨ (check (Text.Utf8.decode bytes) o.settings).traces = []) := by
    decide +kernel
  have told : leadingDiagnostics (check (Text.Utf8.decode bytes) o.settings).lines =
      [.expected .identifier .integerLiteral] := by decide +kernel
  obtain ⟨out, _, done, -, -, -, cut⟩ :=
    session_cut (s := { standardInput := .ok bytes, brokenOutput := some .full }) parsed rfl rfl
  obtain ⟨out', _, done', -, -, -, cut'⟩ :=
    session_cut (s := { standardInput := .ok bytes, brokenOutput := some .closed }) parsed rfl rfl
  refine ⟨⟨out, done, (cut loud).1.output, ?_, (cut loud).1.exit⟩,
    ⟨out', done', (cut' loud).1.output, ?_, (cut' loud).1.exit⟩⟩
  · rw [(cut loud).1.errors, told]
    rfl
  · rw [(cut' loud).1.errors, told]
    rfl

end MiniPascal.CommandLine
