import DefTally.Log.Setting
import DefTally.Output.Line
import DefTally.Output.Report

/-!
# The command

`Invocation.run` is the whole program: from a file system, a command line and an environment
to what is printed, what is logged and the exit status. It scans if there is exactly one
folder, and says that one is required otherwise.
-/

namespace DefTally

open DefTally.Json DefTally.Log DefTally.Output DefTally.Text

/-- A tally as a JSON object. -/
def Tally.toValue (t : Tally) : Value := .object (t.toList.map fun (key, n) => (key, .number n))

/-- The folders that a command line names, after the program's name. Every argument is one, but
an empty argument is no folder, and then nothing is taken for one. -/
def folders? (commandLine : List Bytes) : Option (List Path) :=
  let arguments := commandLine.drop 1
  if arguments.any List.isEmpty then none else some (arguments.map Path.mk)

/-- The folders that a command line names, none if it makes no sense. -/
def folders (commandLine : List Bytes) : List Path := (folders? commandLine).getD []

/-- How printing ended. -/
inductive Outcome where
  | scanned
  | usageError
  deriving DecidableEq, Repr

/-- The exit status of an outcome. -/
def Outcome.status : Outcome → Nat
  | scanned => 0
  | usageError => 1

/-- Why nothing was printed: the line was not written, that of the scan of a folder if it was
one. -/
structure PrintError where
  scanOf : Option Path
  cause : WriteError
  deriving DecidableEq, Repr

/-- The words for an error and its causes, outermost first. -/
def PrintError.chain (e : PrintError) : List String :=
  (e.scanOf.map fun folder => "Failed to print scan of " ++ folder.shown).toList ++ e.cause.chain

/-- The text for an error. -/
def PrintError.report (e : PrintError) : String :=
  match e.chain with
  | [] => ""
  | message :: causes => chainText message causes

/-- Prints the scan of a folder, or says that one folder is required. -/
def FileSystem.print {α : Type} [Writer α] (fs : FileSystem) (folders : List Path) (w : α) :
    α × Except PrintError Outcome :=
  match folders with
  | [folder] =>
    match writeLine w (fs.scan folder).toValue with
    | (w, none) => (w, .ok .scanned)
    | (w, some e) => (w, .error ⟨some folder, e⟩)
  | _ =>
    match writeLine w ErrorReport.folderPathRequired.toValue with
    | (w, none) => (w, .ok .usageError)
    | (w, some e) => (w, .error ⟨none, e⟩)

/-- What a run has to tell apart from its result. -/
def FileSystem.events (fs : FileSystem) (commandLine : List Bytes) : List Event :=
  match folders? commandLine with
  | none => [.argumentsRejected]
  | some [folder] => (fs.findings folder).map (.ofFinding folder)
  | some _ => []

/-- What a run is given: the command line, from the program's name on, and the variables of the
environment. -/
structure Invocation where
  commandLine : List Bytes
  environment : List (String × Bytes)

/-- What a run leaves. -/
@[ext]
structure Result where
  status : Nat
  stdout : Bytes
  stderr : String
  deriving DecidableEq, Repr

/-- The variable that says what is logged. -/
def logVariable : String := "FUNCSCAN_LOG"

namespace Invocation

/-- What the environment makes of the log. -/
def logging (i : Invocation) (reader : SettingReader) : Logging :=
  .ofSetting reader (i.environment.lookup logVariable)

/-- Runs the program with its output going to a sink. -/
def run (i : Invocation) (reader : SettingReader) (fs : FileSystem) (stdout : Sink) : Result :=
  let log := (i.logging reader).log (fs.events i.commandLine)
  match fs.print (folders i.commandLine) (LineBuffer.mk stdout []) with
  | (buffer, .ok outcome) => ⟨outcome.status, buffer.target.accepted, log⟩
  | (buffer, .error e) => ⟨1, buffer.target.accepted, log ++ e.report⟩

end Invocation

end DefTally
