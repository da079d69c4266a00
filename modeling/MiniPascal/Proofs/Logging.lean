import MiniPascal.Proofs.Printing
import MiniPascal.Proofs.Walk

/-!
# What the log tells

The log and the transcript are written at different places: a token is put on record when it is
scanned, a diagnostic when it is reported, and nothing at all when the checker looks ahead. Still
they tell the same story.

* `Checker.Recorded` — the invariant of a check: the journal holds the tokens up to the current
  one, the diagnostics of the transcript, and no end. At the end of the text the token for the end
  may be there more than once.
* `Notice` — what is shown of an entry: its level, its message, and names with values.
* `checkLog` — what the log shows of a check.
* `Tells` — the log of a check tells which tokens were read, which diagnostics there are, and
  whether the whole program was checked.
* `Leveled` — what is shown of a session's log at each level.

**Theorem (`Checker.run_of`).** What consuming a token, leaving a trace, reporting a diagnostic and
changing levels keep is kept by the check of any part of a program.

**Theorem (`Checker.exists_unfinished`).** It is kept up to the very end of a check, where the counts
are put on record if the text starts as a program does.

**Theorem (`LogEntry.notice_ofEvent?`).** What is shown of an entry tells the token, the diagnostic or
the counts that the entry is about.

For every text and every session this is `log_tells`.
-/

namespace MiniPascal

/-! ## Parts of programs -/

/-- The step is for a whole program, or puts its end on record. -/
def Step.isWhole : Step → Bool
  | .finish => true
  | .phrase p | .level p => p = .program
  | _ => false

/-- A program is a part of no phrase, and only programs have an end. -/
theorem Grammar.isWhole_of_mem_expand {d : Dialect} {p : Phrase} {c next : Kind}
    (part : p ≠ .program) : ∀ step ∈ expand d p c next, step.isWhole = false := by
  cases p <;> simp only [expand, commandSteps, factorSteps] <;> (repeat' split) <;>
    simp_all [Step.isWhole]

namespace Checker

/-- A step for a part of a program leaves steps for parts of it. -/
theorem isWhole_of_mem_perform {c : Checker} {step : Step} (part : step.isWhole = false) :
    ∀ step' ∈ (c.perform step).2, step'.isWhole = false := by
  cases step with
  | phrase p => exact Grammar.isWhole_of_mem_expand (of_decide_eq_false part)
  | level p =>
    by_cases room : c.depth < c.maxNesting
    · simp only [perform, open?, if_pos room]
      exact List.forall_mem_cons.2 ⟨part, List.forall_mem_singleton.2 rfl⟩
    · simp only [perform, open?, if_neg room]
      exact List.forall_mem_nil _
  | _ => exact List.forall_mem_nil _

section

variable {P : Checker → Prop} {c : Checker} (advance : ∀ c, P c → P c.advance)
  (mark : ∀ c t, P c → P (c.mark t)) (report : ∀ c e, P c → P (c.report e))
  (depth : ∀ c n, P c → P { c with depth := n })

include advance mark report depth

/-- One step for a part of a program keeps it. -/
theorem perform_of (h : P c) {step : Step} (part : step.isWhole = false) :
    P (c.perform step).1 := by
  have recovered : P c.recover := by
    unfold recover
    split
    · exact advance c h
    · exact h
  cases step with
  | expect k =>
    show P (c.expect k)
    by_cases hk : c.current.kind = k
    · rw [expect_of_isAt hk]
      exact advance c h
    · rw [expect_of_not_isAt hk]
      exact report _ _ recovered
  | mark t => exact mark c t h
  | report e => exact report c e h
  | skip => exact advance c h
  | recover => exact recovered
  | phrase p => exact h
  | level p =>
    unfold perform open?
    by_cases room : c.depth < c.maxNesting
    · rw [if_pos room]
      exact depth c _ h
    · rw [if_neg room]
      exact advance _ (report c _ h)
  | close => exact depth c _ h
  | finish => cases part

/-- **What consuming a token, leaving a trace, reporting a diagnostic and changing levels keep**, the
check of any part of a program keeps. -/
theorem run_of (h : P c) {agenda : List Step} (parts : ∀ step ∈ agenda, step.isWhole = false) :
    P (c.run agenda) := by
  fun_induction run c agenda with
  | case1 => exact h
  | case2 c step rest taken ih =>
    obtain ⟨part, others⟩ := List.forall_mem_cons.1 parts
    exact ih (perform_of advance mark report depth h part)
      (List.forall_mem_append.2 ⟨isWhole_of_mem_perform part, others⟩)

/-- **It is kept up to the very end of a check.** Then the counts are put on record if the text
starts as a program does. -/
theorem exists_unfinished {text : String} {s : Settings} (start : P (ofText text s)) :
    ∃ c, P c ∧
      checked text s = if front (kinds text s.dialect) = .kwProgram then c.finish else c := by
  by_cases first : (ofText text s).current.kind = .kwProgram
  · refine ⟨(ofText text s).run programSteps, ?_, ?_⟩
    · exact run_of advance mark report depth start (by decide)
    · rw [if_pos (current_ofText text s ▸ first)]
      exact checked_of_program first
  · refine ⟨(ofText text s).report (.expected .kwProgram (ofText text s).current.kind), ?_, ?_⟩
    · exact report _ _ start
    · rw [if_neg (current_ofText text s ▸ first)]
      exact checked_of_ne first

end

end Checker

/-! ## The record of a check -/

theorem tokens_nil (d : Dialect) : tokens d [] = [] := tokens_of_none rfl

/-- Pulling a token moves it from what is left to what was read. Where nothing is left, it is the
token for the end. -/
theorem pull_tokens (d : Dialect) (cs : List Char) :
    (pull d cs).1 :: tokens d (pull d cs).2 = tokens d cs ∨
      tokens d cs = [] ∧ pull d cs = (.endOfText, []) := by
  unfold pull
  cases h : scan? d cs with
  | none => exact .inr ⟨tokens_of_none h, rfl⟩
  | some found => exact .inl (tokens_of_some h).symm

namespace Checker

/-- What a checker for this text has on record before its end: the tokens of the text up to the
current one, and behind the last one the token for the end, as often as it was asked for; and for
each diagnostic of the transcript a note. -/
structure Recorded (text : String) (d : Dialect) (c : Checker) : Prop where
  dialect : c.dialect = d
  scanned : ∃ n, c.journal.scanned ++ tokens d c.scanner.rest =
    tokens d text.toList ++ List.replicate n Token.endOfText ∧ (n ≠ 0 → c.scanner.rest = [])
  current : c.journal.scanned.getLast? = some c.current
  noted : c.journal.noted = c.transcript.diagnostics
  unfinished : ∀ errors lines, .finished errors lines ∉ c.journal.toList

namespace Recorded

variable {text : String} {d : Dialect} {c : Checker}

/-- Advancing puts the token that is then the current one on record. -/
theorem advance (h : c.Recorded text d) : c.advance.Recorded text d where
  dialect := h.dialect
  scanned := by
    obtain ⟨rfl, ⟨n, whole, atEnd⟩, -, -, -⟩ := h
    have adds : c.advance.journal.scanned = c.journal.scanned ++ [c.scanner.next.1] :=
      c.journal.scanned_add _
    have rest : c.advance.scanner.rest = (pull c.dialect c.scanner.rest).2 := rfl
    rw [adds, rest, List.append_assoc]
    rcases pull_tokens c.dialect c.scanner.rest with found | ⟨none, pulled⟩
    · refine ⟨n, ?_, fun some => ?_⟩
      · rw [← whole, ← found]
        rfl
      · rw [atEnd some, tokens_nil] at found
        cases found
    · refine ⟨n + 1, ?_, fun _ => by rw [pulled]⟩
      rw [none, List.append_nil] at whole
      have last : c.scanner.next.1 = .endOfText := congrArg Prod.fst pulled
      rw [last, pulled, tokens_nil, whole, List.replicate_succ', List.append_nil,
        List.append_assoc]
  current := by
    have adds : c.advance.journal.scanned = c.journal.scanned ++ [c.advance.current] :=
      c.journal.scanned_add _
    rw [adds, List.getLast?_concat]
  noted := by
    have notes : c.advance.journal.noted = c.journal.noted ++ [] := c.journal.noted_add _
    have lines : c.advance.transcript.lines = c.transcript.lines ++ [] :=
      c.journal.lines_transcript_add _
    rw [notes, Transcript.diagnostics, lines, List.append_nil, List.append_nil]
    exact h.noted
  unfinished := by
    intro errors lines mem
    rcases List.mem_append.1 (c.journal.toList_add _ ▸ mem) with old | new
    · exact h.unfinished _ _ old
    · cases List.mem_singleton.1 new

/-- What is put on record beside tokens and the end makes no difference to these. The lines that
are added have to be noted. -/
theorem add (h : c.Recorded text d) {j : Journal} {es : List Event}
    (adds : j.toList = c.journal.toList ++ es) (noTokens : es.filterMap Event.token? = [])
    (noEnd : ∀ errors lines, .finished errors lines ∉ es)
    (noted : es.filterMap Event.diagnostic? =
      (es.filterMap Event.line?).filterMap Line.diagnostic?) :
    Recorded text d { c with journal := j } := by
  have same : j.scanned = c.journal.scanned := by
    rw [Journal.scanned, adds, List.filterMap_append, noTokens, List.append_nil]
    rfl
  refine ⟨h.dialect, same ▸ h.scanned, same ▸ h.current, ?_, ?_⟩
  · show j.noted = j.transcript.diagnostics
    rw [Journal.noted, Journal.transcript, Transcript.diagnostics, adds, List.filterMap_append,
      List.filterMap_append, List.filterMap_append, noted]
    exact congrArg (· ++ _) h.noted
  · intro errors lines mem
    rcases List.mem_append.1 (adds ▸ mem) with old | new
    · exact h.unfinished _ _ old
    · exact noEnd _ _ new

theorem mark (h : c.Recorded text d) (t : Trace) : (c.mark t).Recorded text d :=
  h.add (c.journal.toList_add (.said (.trace t))) rfl (by simp) rfl

/-- A report is a note for the log and a line of the transcript. -/
theorem report (h : c.Recorded text d) (e : Diagnostic) : (c.report e).Recorded text d := by
  have adds : (c.report e).journal.toList =
      c.journal.toList ++ [.noted e, .said (.diagnostic e)] := by
    simp [Checker.report, note, say]
  exact h.add adds rfl (by simp) rfl

theorem ofText (text : String) (s : Settings) : (ofText text s).Recorded text s.dialect where
  dialect := rfl
  scanned := by
    show ∃ n, [(pull s.dialect text.toList).1] ++ tokens s.dialect (pull s.dialect text.toList).2 =
      _ ∧ (_ → (pull s.dialect text.toList).2 = [])
    rcases pull_tokens s.dialect text.toList with found | ⟨none, pulled⟩
    · exact ⟨0, by simpa using found, fun h => absurd rfl h⟩
    · exact ⟨1, by simp [none, pulled, tokens_nil], fun _ => by rw [pulled]⟩
  current := rfl
  noted := rfl
  unfinished := by
    intro errors lines mem
    cases List.mem_singleton.1 mem

/-- The tokens on record are the first ones of the text, or all of them, and then the one for the
end again. -/
theorem scanned_prefix_or (h : c.Recorded text d) :
    c.journal.scanned <+: tokenize text d ∨
      ∃ n, c.journal.scanned = tokenize text d ++ List.replicate n Token.endOfText := by
  obtain ⟨n, whole, atEnd⟩ := h.scanned
  unfold tokenize
  cases n with
  | zero =>
    rw [List.replicate_zero, List.append_nil] at whole
    exact .inl (List.IsPrefix.trans ⟨_, whole⟩ (List.prefix_append _ _))
  | succ n =>
    rw [atEnd (Nat.succ_ne_zero n), tokens_nil, List.append_nil, List.replicate_succ] at whole
    exact .inr ⟨n, by rw [whole, List.append_assoc]; rfl⟩

end Recorded

/-- A check ends with a record of what is behind it, and then perhaps puts the counts there. -/
theorem exists_recorded (text : String) (s : Settings) :
    ∃ c : Checker, c.Recorded text s.dialect ∧
      checked text s = if front (kinds text s.dialect) = .kwProgram then c.finish else c :=
  exists_unfinished (fun _ h => h.advance) (fun _ t h => h.mark t) (fun _ e h => h.report e)
    (fun _ _ h => ⟨h.dialect, h.scanned, h.current, h.noted, h.unfinished⟩)
    (Recorded.ofText text s)

@[simp] theorem transcript_finish (c : Checker) : c.finish.transcript = c.transcript := by
  simp [transcript, finish, Journal.transcript, Event.line?]

end Checker

namespace CommandLine

/-! ## What is shown of an entry -/

/-- What the log shows of an entry. -/
structure Notice where
  level : Level
  message : String
  fields : List (String × String)
  deriving DecidableEq, Repr

namespace Notice

/-- A token was scanned. -/
def scanned (t : Token) : Notice :=
  ⟨.trace, "scanned token", [("kind", t.kind.label), ("lexeme", t.lexeme)]⟩

/-- A diagnostic was reported. -/
def diagnostic (e : Diagnostic) : Notice :=
  ⟨.debug, "syntax error", [("error", diagnosticLine e)]⟩

/-- The check of a whole program came to its end. -/
def finished (errors lines : Nat) : Notice :=
  ⟨.debug, "check finished", [("errors", toString errors), ("lines", toString lines)]⟩

/-- What is shown for an event of a check. -/
def ofEvent? : Event → Option Notice
  | .scanned t => some (scanned t)
  | .said _ => none
  | .noted e => some (diagnostic e)
  | .finished errors lines => some (finished errors lines)

/-- The line that is shown, in words. -/
def line (n : Notice) : String :=
  " ".intercalate (n.level.label :: n.message :: n.fields.map fun field => field.1 ++ "=" ++ field.2)

end Notice

theorem intercalate_blank (first : String) (more : List String) :
    " ".intercalate (first :: more) = first ++ String.join (more.map (" " ++ ·)) := by
  induction more generalizing first with
  | nil => simp
  | cons next more ih =>
    rw [String.intercalate_cons_cons, ih, List.map_cons, String.join_cons]
    simp only [String.append_assoc]

namespace LogEntry

def notice (e : LogEntry) : Notice := ⟨e.level, e.message, e.fields⟩

/-- **What is shown for an event** is the token, the diagnostic or the counts that it is about. -/
theorem notice_ofEvent? (e : Event) : (ofEvent? e).map notice = Notice.ofEvent? e := by
  cases e with
  | noted e =>
    rw [Notice.ofEvent?, Notice.diagnostic, ← message_eq_diagnosticLine]
    rfl
  | _ => rfl

theorem line_notice (e : LogEntry) : e.notice.line = e.line := by
  rw [Notice.line, intercalate_blank, List.map_cons, String.join_cons, List.map_map, line, text]
  simp only [notice, Function.comp_def, String.append_assoc]

end LogEntry

/-! ## The log of a check -/

/-- What is shown for the events of a journal. -/
def journalLog (j : Journal) : List Notice :=
  (j.toList.filterMap LogEntry.ofEvent?).map LogEntry.notice

/-- What is shown for a check. -/
def checkLog (text : String) (s : Settings) : List Notice := journalLog (checked text s).journal

section

variable (j : Journal)

theorem journalLog_eq : journalLog j = j.toList.filterMap Notice.ofEvent? := by
  rw [journalLog, List.map_filterMap]
  congr 1
  exact funext LogEntry.notice_ofEvent?

/-- The notices with a message are those for the events of one kind. -/
theorem filter_journalLog {α : Type} {message : String} {view? : Event → Option α}
    {notice : α → Notice} (same : ∀ e,
      (Notice.ofEvent? e).filter (·.message = message) = (view? e).map notice) :
    (journalLog j).filter (·.message = message) = (j.toList.filterMap view?).map notice := by
  rw [journalLog_eq, List.filter_filterMap, List.map_filterMap]
  congr 1
  exact funext same

theorem scanned_journalLog :
    (journalLog j).filter (·.message = "scanned token") = j.scanned.map .scanned := by
  refine filter_journalLog j fun e => ?_
  cases e <;> simp [Notice.ofEvent?, Notice.scanned, Notice.diagnostic, Notice.finished,
    Event.token?]

theorem noted_journalLog :
    (journalLog j).filter (·.message = "syntax error") = j.noted.map .diagnostic := by
  refine filter_journalLog j fun e => ?_
  cases e <;> simp [Notice.ofEvent?, Notice.scanned, Notice.diagnostic, Notice.finished,
    Event.diagnostic?]

theorem journalLog_add (e : Event) :
    journalLog (j.add e) = journalLog j ++ (Notice.ofEvent? e).toList := by
  cases h : Notice.ofEvent? e <;> simp [journalLog_eq, h]

theorem finished_of_mem_journalLog {n : Notice} (mem : n ∈ journalLog j)
    (ends : n.message = "check finished") : ∃ errors lines, .finished errors lines ∈ j.toList := by
  rw [journalLog_eq] at mem
  obtain ⟨e, there, told⟩ := List.mem_filterMap.1 mem
  cases e with
  | finished errors lines => exact ⟨errors, lines, there⟩
  | said l => cases told
  | scanned t =>
    obtain rfl := Option.some.inj told
    simp [Notice.scanned] at ends
  | noted e =>
    obtain rfl := Option.some.inj told
    simp [Notice.diagnostic] at ends

end

/-- The log tells what a check of this text has come upon. -/
structure Tells (log : List Notice) (text : String) (s : Settings) : Prop where
  /-- The tokens that were scanned are the first ones of the text, or all of them, and then the one
  for the end again. -/
  scanned : log.filter (·.message = "scanned token") <+: (tokenize text s.dialect).map .scanned ∨
    ∃ n, log.filter (·.message = "scanned token") =
      (tokenize text s.dialect ++ List.replicate n Token.endOfText).map .scanned
  /-- The last one is the one in front of which the check has ended; none has been looked ahead. -/
  current : (log.filter (·.message = "scanned token")).getLast? =
    some (.scanned (checked text s).current)
  /-- The diagnostics are those of the transcript. -/
  diagnostics : log.filter (·.message = "syntax error") =
    (check text s).diagnostics.map .diagnostic
  /-- The counts of the transcript come last, if the text starts as a program does, and nowhere
  else. -/
  finished : ∃ before, (∀ n ∈ before, n.message ≠ "check finished") ∧
    log = before ++
      if front (kinds text s.dialect) = .kwProgram then
        [.finished (check text s).errorCount (check text s).length]
      else []

/-- **The log of a check tells what the transcript tells.** -/
theorem tells_checkLog (text : String) (s : Settings) : Tells (checkLog text s) text s := by
  obtain ⟨c, record, ends⟩ := Checker.exists_recorded text s
  have transcript : check text s = c.transcript := by
    rw [check, ends]
    split
    · exact c.transcript_finish
    · rfl
  have log : checkLog text s = journalLog c.journal ++
      if front (kinds text s.dialect) = .kwProgram then
        [.finished c.transcript.errorCount c.transcript.length]
      else [] := by
    rw [checkLog, ends]
    split
    · exact journalLog_add c.journal _
    · exact (List.append_nil _).symm
  have scanned : (checkLog text s).filter (·.message = "scanned token") =
      c.journal.scanned.map .scanned := by
    rw [log, List.filter_append, scanned_journalLog]
    split <;> simp [Notice.finished]
  refine ⟨?_, ?_, ?_, ?_⟩
  · rw [scanned]
    rcases record.scanned_prefix_or with first | ⟨n, all⟩
    · exact .inl (first.map _)
    · exact .inr ⟨n, congrArg _ all⟩
  · rw [scanned, List.getLast?_map, record.current, ends]
    split <;> rfl
  · rw [log, List.filter_append, noted_journalLog, record.noted, transcript]
    split <;> simp [Notice.finished]
  · refine ⟨journalLog c.journal, fun n mem isEnd => ?_, ?_⟩
    · obtain ⟨errors, lines, there⟩ := finished_of_mem_journalLog _ mem isEnd
      exact record.unfinished errors lines there
    · rw [transcript]
      exact log

/-- Looking ahead at the sign behind a name puts nothing on record. -/
example : checkLog "program p; begin f" ⟨.extended, .insert, 1⟩ =
    [.scanned ⟨.kwProgram, "program"⟩, .scanned ⟨.identifier, "p"⟩, .scanned ⟨.semicolon, ";"⟩,
      .scanned ⟨.kwBegin, "begin"⟩, .scanned ⟨.identifier, "f"⟩, .scanned .endOfText,
      .diagnostic (.expected .kwEnd .endOfText), .diagnostic (.expected .dot .endOfText),
      .finished 2 5] := by decide +kernel

/-! ## The log of a session -/

namespace Level

/-- The name in small letters. -/
def word : Level → String
  | error => "error"
  | warn => "warn"
  | info => "info"
  | debug => "debug"
  | trace => "trace"

/-- The levels that matter as much as this one, or more. -/
def upTo : Level → List Level
  | error => [error]
  | warn => [error, warn]
  | info => [error, warn, info]
  | debug => [error, warn, info, debug]
  | trace => [error, warn, info, debug, trace]

/-- The level that is shown when more of the log was asked for `n` times. -/
def asked (n : Nat) : Level := [warn, info, debug].getD n trace

theorem shows_rank (l l' : Level) : (Threshold.mk l.rank).shows l' = decide (l' ∈ l.upTo) := by
  cases l <;> cases l' <;> rfl

theorem ofVerbosity_eq (n : Nat) : Threshold.ofVerbosity n = ⟨(asked n).rank⟩ := by
  match n with
  | 0 | 1 | 2 => rfl
  | n + 3 =>
    have most : min (n + 3 + 2) 5 = 5 := by omega
    rw [Threshold.ofVerbosity, most]
    rfl

end Level

/-- What a session puts in the log. If it cannot read its text, that is nothing. -/
def sessionLog (o : Options) (s : Surroundings) : List LogEntry :=
  match s.read o.source with
  | .error _ => []
  | .ok bytes => (work o bytes).log

/-- A session where this much more of the log was asked for, and this is set for the log of all
programs. -/
def sessionAt (o : Options) (s : Surroundings) (setting : Option String) (verbosity : Nat) :
    Outcome :=
  checkSession { o with verbosity } { s with logSetting := setting }

/-- The lines of what is shown up to a level. -/
def linesUpTo (l : Level) (log : List Notice) : List String :=
  (log.filter (·.level ∈ l.upTo)).map Notice.line

theorem lines_upTo (l : Level) (log : List LogEntry) :
    (LogFilter.upTo ⟨l.rank⟩).lines log = linesUpTo l (log.map LogEntry.notice) := by
  have same : (LogFilter.upTo ⟨l.rank⟩).shows = fun e => decide (e.notice.level ∈ l.upTo) :=
    funext fun e => (LogFilter.shows_upTo _ e).trans (l.shows_rank e.level)
  rw [LogFilter.lines, same, linesUpTo, List.filter_map, List.map_map]
  exact List.map_congr_left fun e _ => (LogEntry.line_notice e).symm

theorem linesUpTo_trace (log : List Notice) : linesUpTo .trace log = log.map Notice.line := by
  have all (l : Level) : l ∈ Level.trace.upTo := by cases l <;> decide
  rw [linesUpTo, List.filter_eq_self.2]
  intro n _
  exact decide_eq_true (all n.level)

/-- A setting that can be read counts, whatever the options say. -/
theorem choose_of_setting {setting : String} {f : LogFilter}
    (h : LogFilter.ofSetting? setting = some f) (n : Nat) :
    LogFilter.choose (some setting) n = f := by
  rw [LogFilter.choose, Option.bind_some, h, Option.getD_some]

/-- A setting with one directive is a filter with this directive. -/
theorem ofSetting?_of_single {setting : String} {d : Directive}
    (single : setting.splitOn "," = [setting]) (nonempty : setting ≠ "")
    (read : Directive.parse? setting = some d) : LogFilter.ofSetting? setting = some ⟨[d]⟩ := by
  simp [LogFilter.ofSetting?, single, nonempty, read]

/-- The name of a level is a setting, in capitals and in small letters. -/
theorem ofSetting?_label (l : Level) : LogFilter.ofSetting? l.label = some (.upTo ⟨l.rank⟩) := by
  have single : l.label.splitOn "," = [l.label] := by
    cases l <;> simp +decide [String.splitOn, String.splitOnAux]
  have read : Directive.parse? l.label = some { threshold := ⟨l.rank⟩ } := by
    cases l <;> decide +kernel
  exact ofSetting?_of_single single (by cases l <;> decide) read

theorem ofSetting?_word (l : Level) : LogFilter.ofSetting? l.word = some (.upTo ⟨l.rank⟩) := by
  have single : l.word.splitOn "," = [l.word] := by
    cases l <;> simp +decide [String.splitOn, String.splitOnAux]
  have read : Directive.parse? l.word = some { threshold := ⟨l.rank⟩ } := by
    cases l <;> decide +kernel
  exact ofSetting?_of_single single (by cases l <;> decide) read

section

variable (o : Options) (s : Surroundings) (setting : Option String) (n : Nat)

/-- What is shown of the log is what the filter shows. -/
theorem log_sessionAt :
    (sessionAt o s setting n).log = (LogFilter.choose setting n).lines (sessionLog o s) := by
  have same : { s with logSetting := setting }.read { o with verbosity := n }.source =
      s.read o.source := rfl
  unfold sessionAt sessionLog
  cases read : s.read o.source with
  | error f =>
    unfold checkSession
    rw [same, read]
    rfl
  | ok bytes =>
    rw [checkSession_of_read (same.trans read), Delivery.log_outcome]
    rfl

/-- Nothing else depends on the filter. -/
theorem withoutLog_sessionAt :
    (sessionAt o s setting n).withoutLog = (checkSession o s).withoutLog := by
  have same : { s with logSetting := setting }.read { o with verbosity := n }.source =
      s.read o.source := rfl
  unfold sessionAt
  cases read : s.read o.source with
  | error f =>
    unfold checkSession
    rw [same, read]
  | ok bytes =>
    rw [checkSession_of_read (same.trans read), checkSession_of_read read,
      Delivery.withoutLog_outcome, Delivery.withoutLog_outcome]
    rfl

end

/-- At each level the log of a session shows what it shows at the finest one, but for the entries
that are finer; and nothing else depends on the level. -/
structure Leveled (o : Options) (s : Surroundings) (log : List LogEntry) : Prop where
  /-- If the text can be read, the log shows what it shows for the check, and in front of that no
  tokens, no diagnostics and no end. -/
  entries : ∀ bytes, s.read o.source = .ok bytes → ∃ front : List Notice,
    (∀ n ∈ front, n.message ∉ ["scanned token", "syntax error", "check finished"]) ∧
      log.map LogEntry.notice = front ++ checkLog (Text.Utf8.decode bytes) o.settings ++
        [⟨.info, "done",
          [("errors", toString (check (Text.Utf8.decode bytes) o.settings).errorCount)]⟩]
  finest : linesUpTo .trace (log.map LogEntry.notice) =
    (log.map LogEntry.notice).map Notice.line
  /-- Without a setting the options tell the level. -/
  options : ∀ n, (sessionAt o s none n).log = linesUpTo (.asked n) (log.map LogEntry.notice)
  /-- A setting that names a level wins over the options. -/
  setting : ∀ (l : Level) n,
    (sessionAt o s (some l.label) n).log = linesUpTo l (log.map LogEntry.notice) ∧
      (sessionAt o s (some l.word) n).log = linesUpTo l (log.map LogEntry.notice)
  /-- Any other setting is a filter on the same entries. -/
  filter : ∀ setting n, (sessionAt o s setting n).log = (LogFilter.choose setting n).lines log
  /-- Nothing else that is seen depends on the level. -/
  rest : ∀ setting n, (sessionAt o s setting n).withoutLog = (checkSession o s).withoutLog

theorem leveled_sessionLog (o : Options) (s : Surroundings) : Leveled o s (sessionLog o s) where
  entries bytes read := by
    rw [sessionLog, read]
    simp only [work, List.map_append]
    refine ⟨_, ?_, rfl⟩
    cases o.source <;> simp [LogEntry.notice, LogEntry.message]
  finest := linesUpTo_trace _
  options n := by
    rw [log_sessionAt, ← lines_upTo, ← Level.ofVerbosity_eq]
    rfl
  setting l n := by
    rw [log_sessionAt, log_sessionAt, choose_of_setting (ofSetting?_label l),
      choose_of_setting (ofSetting?_word l), lines_upTo]
    exact ⟨rfl, rfl⟩
  filter := log_sessionAt o s
  rest := withoutLog_sessionAt o s

/-- **The log tells the same story as the transcript.** In what is shown for a check there are the
tokens of the text up to the one where the check ended, looked at ahead or not; the diagnostics of
the transcript, in order; and the counts of the transcript, last and only if the text starts as a
program does. Of what a session puts in the log a coarser level shows less, and no level makes any
other difference. -/
theorem log_tells (text : String) (settings : Settings) (o : Options) (s : Surroundings) :
    Tells (checkLog text settings) text settings ∧ Leveled o s (sessionLog o s) :=
  ⟨tells_checkLog text settings, leveled_sessionLog o s⟩

/-- A program that breaks off behind a name, at three levels. To look ahead from there is not
shown. -/
theorem log_tells_unfinished :
    (∃ out, session ["-vvv", "--dialect=extended", "--recovery=insert"]
        { standardInput := .ok "program p; begin f".toUTF8.toList } = .ok out ∧
      out.log = ["INFO checking config=CheckerConfig \x7b dialect: Extended, recovery: Insert, " ++
          "max_nesting: 256 \x7d bytes=18",
        "TRACE scanned token kind=PROGRAM lexeme=program",
        "TRACE scanned token kind=IDENTIFIER lexeme=p",
        "TRACE scanned token kind=SEMICOLON lexeme=;",
        "TRACE scanned token kind=BEGIN lexeme=begin",
        "TRACE scanned token kind=IDENTIFIER lexeme=f",
        "TRACE scanned token kind=END_OF_FILE lexeme=",
        "DEBUG syntax error error=Erro de Sintaxe: esperado END mas recebeu END_OF_FILE",
        "DEBUG syntax error error=Erro de Sintaxe: esperado DOT mas recebeu END_OF_FILE",
        "DEBUG check finished errors=2 lines=5",
        "INFO done errors=2"]) ∧
    (∃ out, session ["-v", "--dialect=extended", "--recovery=insert"]
        { standardInput := .ok "program p; begin f".toUTF8.toList
          logSetting := some "debug" } = .ok out ∧
      out.log = ["INFO checking config=CheckerConfig \x7b dialect: Extended, recovery: Insert, " ++
          "max_nesting: 256 \x7d bytes=18",
        "DEBUG syntax error error=Erro de Sintaxe: esperado END mas recebeu END_OF_FILE",
        "DEBUG syntax error error=Erro de Sintaxe: esperado DOT mas recebeu END_OF_FILE",
        "DEBUG check finished errors=2 lines=5",
        "INFO done errors=2"]) ∧
    (checkLog "program p; begin f" ⟨.extended, .insert, 256⟩).filter (·.message = "syntax error") =
      [⟨.debug, "syntax error",
          [("error", "Erro de Sintaxe: esperado END mas recebeu END_OF_FILE")]⟩,
        ⟨.debug, "syntax error",
          [("error", "Erro de Sintaxe: esperado DOT mas recebeu END_OF_FILE")]⟩] := by
  let o : Options := { settings := ⟨.extended, .insert, 256⟩ }
  let s : Surroundings := { standardInput := .ok "program p; begin f".toUTF8.toList }
  obtain ⟨tells, leveled⟩ := log_tells "program p; begin f" o.settings o s
  refine ⟨⟨sessionAt o s none 3, rfl, ?_⟩, ⟨sessionAt o s (some "debug") 1, rfl, ?_⟩, ?_⟩
  · rw [leveled.options]
    decide +kernel
  · show (sessionAt o s (some Level.debug.word) 1).log = _
    rw [(leveled.setting .debug 1).2]
    decide +kernel
  · rw [tells.diagnostics]
    decide +kernel

end CommandLine

end MiniPascal
