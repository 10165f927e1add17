import DefTally.Proofs.Command.Contract
import DefTally.Log.Setting
import DefTally.Proofs.Text.Sound

/-!
# The log stands apart from the result

What a run prints, its exit status and its error report are settled by the command line, the file
system and the standard output (`run_eq`); the environment only decides what of its events is in the
log before the report (`perform_apart`).
-/

namespace DefTally

open DefTally.FileSystem DefTally.Json DefTally.Log DefTally.Output DefTally.Text

namespace Log

/-- A setting that asks for no log: there is none, or it is no text, or it is blank. -/
inductive Silent : Option Bytes → Prop where
  | unset : Silent none
  | noText {bytes : Bytes} (noText : ¬ Utf8.IsText bytes) : Silent (some bytes)
  | blank {text : List Char} (blank : ∀ c ∈ text, isWhiteSpace c = true) :
      Silent (some (Utf8.encode text))

/-- Without a setting that asks for a log it is off. -/
theorem Silent.ofSetting {setting : Option Bytes} (silent : Silent setting) (reader : SettingReader) :
    Logging.ofSetting reader setting = .off := by
  cases silent with
  | unset => rfl
  | @noText bytes noText =>
    have unread : Utf8.decode? bytes = none := by
      refine Option.eq_none_iff_forall_ne_some.2 fun text read => noText ⟨text, ?_⟩
      exact Utf8.decode?_eq_some_iff.1 read
    simp only [Logging.ofSetting, Option.bind_some, unread]
  | blank blank =>
    have all := List.all_eq_true.2 blank
    simp only [Logging.ofSetting, Option.bind_some, Utf8.decode?_encode, if_pos all]

theorem log_off (events : List Event) : Logging.off.log events = "" := by
  have nothing : events.filter Logging.off.shows = [] :=
    List.filter_eq_nil_iff.2 fun _ _ => Bool.false_ne_true
  rw [Logging.log, linesOf, nothing]
  rfl

end Log

namespace Invocation

/-- The report on the standard error of a line that was not written. -/
def reportOf : Except PrintError Outcome → String
  | .ok _ => ""
  | .error e => e.report

/-- The exit status after a print. -/
def statusOf : Except PrintError Outcome → Nat
  | .ok outcome => outcome.status
  | .error _ => 1

/-- What a print comes to on a standard output. -/
def printedOn (commandLine : List Bytes) (fs : FileSystem) (stdout : Sink) :
    LineBuffer Sink × Except PrintError Outcome :=
  fs.print (folders commandLine) ⟨stdout, []⟩

theorem run_eq (reader : SettingReader) (i : Invocation) (fs : FileSystem) (stdout : Sink) :
    i.run reader fs stdout =
      ⟨statusOf (printedOn i.commandLine fs stdout).2,
        (printedOn i.commandLine fs stdout).1.target.accepted,
        (i.logging reader).log (fs.events i.commandLine) ++
          reportOf (printedOn i.commandLine fs stdout).2⟩ := by
  rw [run, printedOn]
  rcases fs.print (folders i.commandLine) (⟨stdout, []⟩ : LineBuffer Sink) with ⟨buffer, e | outcome⟩
  · rfl
  · simp only [reportOf, String.append_empty]
    rfl

/-- The log stands apart from the result. On a command line, a file system and a standard output, all
runs print the same bytes with the same exit status and the same report after the log, whatever their
environments are, and of the environment only the setting of the log makes a difference to the log.
If the setting asks for no log and the standard output accepts the line, the standard error is
empty. -/
theorem perform_apart {parse : ArgumentParser} (takes : parse.TakesValues) (reader : SettingReader)
    (commandLine : List Bytes) (fs : FileSystem) (stdout : Sink) :
    (∃ status stdoutBytes report, ∀ environment,
      (perform parse reader ⟨commandLine, environment⟩ fs stdout).1 =
        ⟨status, stdoutBytes, (Logging.ofSetting reader (environment.lookup logVariable)).log
          (fs.events commandLine) ++ report⟩) ∧
    (∀ environment environment' : List (String × Bytes),
      environment.lookup logVariable = environment'.lookup logVariable →
      perform parse reader ⟨commandLine, environment⟩ fs stdout =
        perform parse reader ⟨commandLine, environment'⟩ fs stdout) ∧
    ∀ environment : List (String × Bytes), Silent (environment.lookup logVariable) →
      stdout.Accepts (lineOf (printed fs (folders commandLine)).1.line) →
      (perform parse reader ⟨commandLine, environment⟩ fs stdout).1.stderr = "" := by
  simp only [perform_eq takes]
  refine ⟨?_, fun environment environment' same => ?_, fun environment silent accepts => ?_⟩
  · let outcome := printedOn commandLine fs stdout
    exact ⟨statusOf outcome.2, outcome.1.target.accepted, reportOf outcome.2,
      fun environment => run_eq reader ⟨commandLine, environment⟩ fs stdout⟩
  · simp only [run_eq, logging, same]
  · have prints := (run_prints reader ⟨commandLine, environment⟩ fs stdout).accepted accepts
    rw [prints.2.2, logging, silent.ofSetting, log_off]

/-- A folder that is not there: two environments that differ in another variable make no difference,
and with a setting that is no text nothing is logged. -/
theorem perform_apart_missing : ArgumentParser.values.TakesValues ∧
    perform .values .lenient ⟨[programName, [0x61]], [("RUST_LOG", Utf8.encode "trace".toList)]⟩ .empty
      .fullDevice = perform .values .lenient ⟨[programName, [0x61]], []⟩ .empty .fullDevice ∧
    (perform .values .lenient ⟨[programName, [0x61]], [(logVariable, [0xff])]⟩ .empty
      .unlimited).1.stderr = "" := by
  have takes := ArgumentParser.values_takesValues
  refine ⟨takes, ?_, ?_⟩
  · exact (perform_apart takes .lenient [programName, [0x61]] .empty .fullDevice).2.1 _ _ (by rfl)
  · have noText : ¬ Utf8.IsText [0xff] := by
      rintro ⟨text, same⟩
      have read := Utf8.decode?_eq_some_iff.2 same
      cases read
    exact (perform_apart takes .lenient [programName, [0x61]] .empty .unlimited).2.2
      [(logVariable, [0xff])] (.noText noText) ⟨fun _ no => (by cases no), rfl⟩

end Invocation

end DefTally
