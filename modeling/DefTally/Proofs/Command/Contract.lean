import DefTally.Proofs.Output.Buffer
import DefTally.Proofs.Process.Run

/-!
# The contract of the command

A run prints one line: that of a scan for one folder, and for every other command line that a folder
is required (`run_prints`). The standard output has nothing else, and the exit status tells the two
lines, and a line that could not be written, apart (`perform_contract`). What is said on the standard
error of a line that could not be written is spelled out in `Reported`.
-/

namespace DefTally

open DefTally.FileSystem DefTally.Json DefTally.Log DefTally.Output DefTally.Text

/-- The bytes of a text with the end of its line. -/
def lineOf (text : String) : Bytes := Utf8.encode text.toList ++ [lineFeed]

/-! ## Error reports -/

/-- What is said of the stage in which a line failed. -/
inductive StageSays : Stage → String → Prop where
  | value : StageSays .value "Failed to serialize output"
  | lineEnd : StageSays .lineEnd "Failed to write output"
  | flush : StageSays .flush "Failed to flush output"

/-- The report of a line that failed in a stage for a reason: what was to be printed, if that was the
scan of a folder, then the stage and the reason, each on a line of its own. A reason of several lines
is set in. -/
inductive Reported : Option Path → Stage → String → String → Prop where
  | line {stage : Stage} {words : String} (said : StageSays stage words) (reason : String) :
      Reported none stage reason
        ("Error: " ++ words ++ "\n\nCaused by:\n    " ++ setIn "    " reason ++ "\n")
  | scan {stage : Stage} {words : String} (said : StageSays stage words) (reason : String)
      (folder : Path) : Reported (some folder) stage reason
        ("Error: Failed to print scan of " ++ folder.shown ++ "\n\nCaused by:\n    0: " ++ words ++
          "\n    1: " ++ setIn "       " reason ++ "\n")

theorem stageSays_message (stage : Stage) : StageSays stage stage.message := by
  cases stage with
  | value => exact .value
  | lineEnd => exact .lineEnd
  | flush => exact .flush

/-- A text of one line is not changed by a margin. -/
theorem setIn_of_oneLine {text : String} (oneLine : '\n' ∉ text.toList) (margin : String) :
    setIn margin text = text := by
  have same : (text.toList.flatMap fun c => if c = '\n' then c :: margin.toList else [c]) =
      text.toList.flatMap fun c => [c] := by
    refine List.flatMap_congr fun c inside => if_neg ?_
    rintro rfl
    exact oneLine inside
  rw [setIn, same, List.flatMap_singleton', String.ofList_toList]

theorem setIn_stage (stage : Stage) (margin : String) : setIn margin stage.message = stage.message := by
  refine setIn_of_oneLine ?_ margin
  cases stage <;> decide

theorem chainText_one (message cause : String) : chainText message [cause] =
    "Error: " ++ message ++ "\n\nCaused by:\n    " ++ setIn "    " cause ++ "\n" := by
  have text : chainText message [cause] = "Error: " ++ message ++ "\n" ++
      ("\nCaused by:\n" ++ ("" ++ ("    " ++ setIn "    " cause ++ "\n"))) := rfl
  have head : "\n\nCaused by:\n    " = "\n" ++ ("\nCaused by:\n" ++ "    ") := by decide
  rw [text, head]
  simp only [String.append_assoc, String.empty_append]

theorem chainText_two (message cause cause' : String) : chainText message [cause, cause'] =
    "Error: " ++ message ++ "\n\nCaused by:\n    0: " ++ setIn "       " cause ++ "\n    1: " ++
      setIn "       " cause' ++ "\n" := by
  have text : chainText message [cause, cause'] = "Error: " ++ message ++ "\n" ++ ("\nCaused by:\n" ++
      ("" ++ ("    0" ++ ": " ++ setIn "       " cause ++ "\n") ++
        ("    1" ++ ": " ++ setIn "       " cause' ++ "\n"))) := rfl
  have head : "\n\nCaused by:\n    0: " = "\n" ++ ("\nCaused by:\n" ++ ("    0" ++ ": ")) := by decide
  have next : "\n    1: " = "\n" ++ ("    1" ++ ": ") := by decide
  rw [text, head, next]
  simp only [String.append_assoc, String.empty_append]

/-- The report of a print that failed names the folder, if there is one, the stage and the reason. -/
theorem reported_report (e : PrintError) : Reported e.scanOf e.cause.stage e.cause.reason e.report := by
  obtain ⟨_ | folder, stage, reason⟩ := e
  · have text : PrintError.report ⟨none, stage, reason⟩ = chainText stage.message [reason] := rfl
    rw [text, chainText_one]
    exact .line (stageSays_message stage) reason
  · have text : PrintError.report ⟨some folder, stage, reason⟩ =
        chainText ("Failed to print scan of " ++ folder.shown) [stage.message, reason] := rfl
    have head : "Error: Failed to print scan of " = "Error: " ++ "Failed to print scan of " := by decide
    rw [text, chainText_two, setIn_stage, ← String.append_assoc, ← head]
    exact .scan (stageSays_message stage) reason folder

/-! ## Runs -/

/-- A run prints a line. If the standard output accepts it, then it has all of the line, and the run
ends with a status and a log. Otherwise it has as much of the line as there is room for, and the run
ends with status 1, and after the log with a report of the stage that failed and the reason of the
standard output. A line of at most as many bytes as are held back fails at its end or later. -/
structure Result.Prints (r : Result) (stdout : Sink) (line : String) (status : Nat)
    (scanOf : Option Path) (log : String) : Prop where
  accepted : stdout.Accepts (lineOf line) →
    r.stdout = stdout.accepted ++ lineOf line ∧ r.status = status ∧ r.stderr = log
  refused : ¬ stdout.Accepts (lineOf line) →
    r.stdout = stdout.accepted ++ (lineOf line).take (stdout.room (lineOf line)) ∧ r.status = 1 ∧
      ∃ stage reason report, stdout.Refuses (lineOf line) ⟨stage, reason⟩ ∧
        ((Utf8.encode line.toList).length ≤ LineBuffer.capacity → stage ≠ .value) ∧
        Reported scanOf stage reason report ∧ r.stderr = log ++ report

/-- A full device takes nothing, and refuses a short line at its end. -/
theorem Result.Prints.full {r : Result} {line log : String} {status : Nat} {scanOf : Option Path}
    (prints : r.Prints .fullDevice line status scanOf log)
    (short : (Utf8.encode line.toList).length ≤ LineBuffer.capacity) :
    ∃ report, Reported scanOf .lineEnd "No space left on device (os error 28)" report ∧
      r = ⟨1, [], log ++ report⟩ := by
  have noRoom : ¬Sink.fullDevice.Fits (lineOf line) := fun fits => by
    have := fits 0 rfl
    simp [lineOf] at this
  obtain ⟨stdout, status, stage, reason, report, refuses, later, reported, stderr⟩ :=
    prints.refused fun accepts => noRoom accepts.1
  obtain ⟨-, notFlush, same⟩ | ⟨fits, -⟩ := refuses
  · cases same
    have atEnd : stage = .lineEnd := by
      cases stage with
      | value => exact absurd rfl (later short)
      | lineEnd => rfl
      | flush => exact absurd rfl notFlush
    subst atEnd
    have nothing : Sink.fullDevice.room (lineOf line) = 0 := Nat.min_zero _
    rw [nothing] at stdout
    exact ⟨report, reported, Result.ext status stdout stderr⟩
  · exact absurd fits noRoom

namespace Invocation

/-- The value that is printed for folders, with the outcome of that and the folder that was scanned. -/
def printed (fs : FileSystem) : List Path → Value × Outcome × Option Path
  | [folder] => ((fs.scan folder).toValue, .scanned, some folder)
  | _ => (ErrorReport.folderPathRequired.toValue, .usageError, none)

theorem print_eq {α : Type} [Writer α] (fs : FileSystem) (folders : List Path) (w : α) :
    fs.print folders w = match writeLine w (printed fs folders).1 with
      | (w, none) => (w, .ok (printed fs folders).2.1)
      | (w, some e) => (w, .error ⟨(printed fs folders).2.2, e⟩) := by
  match folders with
  | [_] => rfl
  | [] | _ :: _ :: _ => rfl

/-- A run prints one line. -/
theorem run_prints (reader : SettingReader) (i : Invocation) (fs : FileSystem) (stdout : Sink) :
    (i.run reader fs stdout).Prints stdout (printed fs (folders i.commandLine)).1.line
      (printed fs (folders i.commandLine)).2.1.status (printed fs (folders i.commandLine)).2.2
      ((i.logging reader).log (fs.events i.commandLine)) := by
  rcases what : printed fs (folders i.commandLine) with ⟨v, outcome, scanOf⟩
  obtain ⟨kept, ends⟩ := writeLine_buffer stdout v
  have line : lineBytes v ++ [lineFeed] = lineOf v.line := rfl
  rw [line] at kept ends
  rw [run, print_eq, what]
  rcases written : writeLine (⟨stdout, []⟩ : LineBuffer Sink) v with ⟨buffer, _ | e⟩
  · rw [written] at kept ends
    have all : (lineOf v.line).take (stdout.room (lineOf v.line)) = lineOf v.line := by
      rw [(Sink.room_eq_length_iff (by simp [lineOf])).2 ends.1, List.take_length]
    exact ⟨fun _ => ⟨by rw [← all]; exact kept, rfl, rfl⟩, fun no => absurd ends no⟩
  · rw [written] at kept ends
    obtain ⟨refuses, later⟩ := ends
    exact ⟨fun accepts => absurd accepts refuses.not_accepts,
      fun _ => ⟨kept, rfl, _, _, _, refuses, later, reported_report ⟨scanOf, e⟩, rfl⟩⟩

/-- One folder is named by a single argument that is not empty. -/
theorem folders_eq_singleton_iff {commandLine : List Bytes} {folder : Path} :
    folders commandLine = [folder] ↔
      folder.text ≠ [] ∧ ∃ program, commandLine = [program, folder.text] := by
  match commandLine with
  | [] | [_] => simp [folders, folders?]
  | [program, argument] =>
    by_cases empty : argument = []
    · simp +contextual [folders, folders?, empty, eq_comm]
    · have named : folders [program, argument] = [⟨argument⟩] := by simp [folders, folders?, empty]
      rw [named, List.singleton_inj]
      constructor
      · rintro rfl
        exact ⟨empty, program, rfl⟩
      · rintro ⟨-, _, same⟩
        cases same
        rfl
  | _ :: a :: b :: rest =>
    simp only [folders, folders?]
    split <;> simp

section NoFolder

variable {folders : List Path} {commandLine : List Bytes}

/-- Without exactly one folder the file system makes no difference to what is printed. -/
theorem printed_of_noFolder (noFolder : ∀ folder, folders ≠ [folder]) (fs : FileSystem) :
    printed fs folders = (ErrorReport.folderPathRequired.toValue, .usageError, none) := by
  match folders with
  | [folder] => exact absurd rfl (noFolder folder)
  | [] | _ :: _ :: _ => rfl

/-- Without exactly one folder the file system makes no difference to what is logged. -/
theorem events_of_noFolder (noFolder : ∀ folder, DefTally.folders commandLine ≠ [folder])
    (fs : FileSystem) : fs.events commandLine =
      if [] ∈ commandLine.drop 1 then [.argumentsRejected] else [] := by
  have nothing : Process.printEvents fs (DefTally.folders commandLine) = [] := by
    match named : DefTally.folders commandLine with
    | [folder] => exact absurd named (noFolder folder)
    | [] | _ :: _ :: _ => rfl
  have rejected : folders? commandLine = none ↔ [] ∈ commandLine.drop 1 := by
    simp [folders?]
  simp only [events_eq, nothing, List.append_nil, rejected]

end NoFolder

/-- The contract of the command. In all cases the file system stays as it was. A single argument that
is not empty is taken for a folder, whatever its bytes are: what is printed is the line of its scan,
whatever the scan comes to, and the exit status is 0. On every other command line it is the line
that says that a folder is required, and the status is 1; then nothing is looked for in the file
system, and the log has no event of a scan. A line that is refused makes the status 1, and the
standard error ends with a report of why it was refused. -/
theorem perform_contract {parse : ArgumentParser} (takes : parse.TakesValues) (reader : SettingReader)
    (i : Invocation) (fs : FileSystem) (stdout : Sink) :
    (i.perform parse reader fs stdout).2 = fs ∧
    (∀ program folder, i.commandLine = [program, folder] → folder ≠ [] →
      ∃ line, render (fs.scan ⟨folder⟩).toValue = .ok line ∧
        (i.perform parse reader fs stdout).1.Prints stdout line 0 (some ⟨folder⟩)
          ((i.logging reader).log (fs.events i.commandLine))) ∧
    ((∀ program folder, i.commandLine = [program, folder] → folder = []) →
      (∀ fs', (i.perform parse reader fs' stdout).1 = (i.perform parse reader fs stdout).1) ∧
      (i.perform parse reader fs stdout).1.Prints stdout "\x7b\"error\": \"Folder path required\"\x7d" 1
        none ((i.logging reader).log (if [] ∈ i.commandLine.drop 1 then [.argumentsRejected] else []))) := by
  have same : ∀ fs', i.perform parse reader fs' stdout = (i.run reader fs' stdout, fs') :=
    fun fs' => perform_eq takes reader i fs' stdout
  have prints := run_prints reader i fs stdout
  rw [same fs]
  refine ⟨rfl, fun program folder single filled => ?_, fun empty => ?_⟩
  · have named : folders i.commandLine = [⟨folder⟩] :=
      folders_eq_singleton_iff.2 ⟨filled, program, single⟩
    rw [named] at prints
    exact ⟨_, render_eq _, prints⟩
  · have noFolder : ∀ folder, folders i.commandLine ≠ [folder] := by
      intro folder named
      obtain ⟨filled, program, single⟩ := folders_eq_singleton_iff.1 named
      exact filled (empty program _ single)
    refine ⟨fun fs' => ?_, ?_⟩
    · rw [same fs', run, run, print_eq, print_eq]
      simp only [printed_of_noFolder noFolder, events_of_noFolder noFolder]
    · rw [printed_of_noFolder noFolder, events_of_noFolder noFolder] at prints
      exact prints

/-- Two marks are a folder and scanned, and its line is printed. A full device takes neither that line
nor the one that says that a folder is required: then the standard error has a report. -/
theorem perform_contract_marks :
    let perform (arguments : List Bytes) (stdout : Sink) : Result :=
      (perform .values .lenient ⟨programName :: arguments, []⟩ .empty stdout).1
    ArgumentParser.values.TakesValues ∧
    perform [endOfOptions] .unlimited = ⟨0, Utf8.encode "\x7b\x7d\n".toList, ""⟩ ∧
    perform [endOfOptions] .fullDevice = ⟨1, [], "Error: Failed to print scan of --\n\nCaused by:\n" ++
      "    0: Failed to write output\n    1: No space left on device (os error 28)\n"⟩ ∧
    perform [] .fullDevice = ⟨1, [], "Error: Failed to write output\n\nCaused by:\n" ++
      "    No space left on device (os error 28)\n"⟩ := by
  intro perform
  have takes := ArgumentParser.values_takesValues
  have scanned (stdout : Sink) : (perform [endOfOptions] stdout).Prints stdout "\x7b\x7d" 0
      (some ⟨endOfOptions⟩) "" := by
    obtain ⟨-, scanned, -⟩ :=
      perform_contract takes .lenient ⟨[programName, endOfOptions], []⟩ .empty stdout
    obtain ⟨line, rendered, prints⟩ := scanned programName endOfOptions rfl (by decide)
    have empty : (FileSystem.empty.scan ⟨endOfOptions⟩).toValue.line = "\x7b\x7d" := by decide +kernel
    rw [render_eq, empty] at rendered
    cases rendered
    exact prints
  refine ⟨takes, ?_, ?_, ?_⟩
  · obtain ⟨stdout, status, stderr⟩ := (scanned .unlimited).accepted ⟨fun _ no => (by cases no), rfl⟩
    exact Result.ext status stdout stderr
  · obtain ⟨report, reported, left⟩ := (scanned .fullDevice).full (by decide)
    cases reported with
    | scan said => cases said; exact left
  · obtain ⟨-, -, required⟩ := perform_contract takes .lenient ⟨[programName], []⟩ .empty .fullDevice
    obtain ⟨-, prints⟩ := required fun program folder no => by cases no
    obtain ⟨report, reported, left⟩ := prints.full (by decide)
    cases reported with
    | line said => cases said; exact left

end Invocation

end DefTally
