import DefTally.Command
import DefTally.Counter

/-!
# Processes

A `Process` is the program while it runs: the file system that it runs on, its two outputs and the
events that its log shows. What the program does is told here step by step: an event goes to the log as
soon as it is raised, before the next file is read, and a line goes to the standard output piece by
piece. `Invocation.perform` runs the whole program; what it comes to is `Invocation.run`.
-/

namespace DefTally

open DefTally.FileSystem DefTally.Json DefTally.Log DefTally.Output DefTally.Text

/-! ## Command lines -/

/-- A parser of command lines: the values that it finds on one, or none if it rejects it. -/
abbrev ArgumentParser := List Bytes → Option (List Path)

/-- The name of a program that is not told its name. -/
def programName : Bytes := Utf8.encode "funcscan".toList

/-- The mark that ends the options of a command line. -/
def endOfOptions : Bytes := Utf8.encode "--".toList

/-- The command line with the mark put before its arguments, so that all of them are values. -/
def marked (commandLine : List Bytes) : List Bytes :=
  commandLine.head?.getD programName :: endOfOptions :: commandLine.drop 1

namespace ArgumentParser

/-- What is asked of a parser: after the mark every argument is a value, and an empty value is
rejected. -/
def TakesValues (parse : ArgumentParser) : Prop :=
  ∀ program arguments, parse (program :: endOfOptions :: arguments) =
    if arguments.any List.isEmpty then none else some (arguments.map Path.mk)

/-- The parser that takes every argument for a value, but for the first mark. -/
def values : ArgumentParser
  | [] => some []
  | program :: arguments => folders? (program :: arguments.erase endOfOptions)

theorem values_takesValues : values.TakesValues := by
  intro program arguments
  rw [values, List.erase_cons_head]
  rfl

end ArgumentParser

/-! ## The program -/

/-- The program while it runs. -/
structure Process where
  fileSystem : FileSystem
  shows : Event → Bool
  stdout : LineBuffer Sink
  stderr : String

/-- What a process does with a counter at hand. -/
abbrev Counting (α : Type) := StateT Counter (StateM Process) α

namespace Process

/-- Writes a text to the standard error. -/
def writeError (text : String) : StateM Process Unit :=
  modify fun p => { p with stderr := p.stderr ++ text }

/-- Raises an event: its line is written to the standard error, if the log shows it. -/
def tell (e : Event) : StateM Process Unit := do
  if (← get).shows e then writeError e.line

/-- Writes a value to the standard output as one line. -/
def printLine (v : Value) : StateM Process (Option WriteError) := do
  let (stdout, failure) := writeLine (← get).stdout v
  modify fun p => { p with stdout }
  return failure

/-- How many top-level functions a file defines, or why that is not known. -/
def tryCount (path : Path) : Counting (Except CountError Nat) := do
  match (← getThe Process).fileSystem.read path with
  | .error cause => return .error (.unreadable path cause)
  | .ok bytes => return (← modifyGetThe Counter (Counter.countSource bytes)).mapError (.ofFlaw path)

/-- How many top-level functions a file defines; none if that is not known. -/
def count (path : Path) : Counting Nat := do
  match ← tryCount path with
  | .ok n =>
    tell (.counted path n)
    return n
  | .error e =>
    tell (.countedAsZero path e)
    return 0

/-- How many top-level functions a file defines, by a counter of its own. -/
def countAlone (path : Path) : StateM Process Nat := (count path).run' .fresh

/-- What a visit below a root adds to a tally. -/
def scanVisit (root : Path) (tally : Tally) : Visit → Counting Tally
  | .unreadable path failure => do
    tell (.entrySkipped root path failure)
    return tally
  | .entry path kind => do
    if (← getThe Process).fileSystem.isSource path kind then
      return tally.insert (root.relativeKey path) (← count path)
    else return tally

/-- What visits below a root add to a tally, one after the other. -/
def scanVisits (root : Path) : Tally → List Visit → Counting Tally
  | tally, [] => return tally
  | tally, visit :: rest => do scanVisits root (← scanVisit root tally visit) rest

/-- The counts of the source files below a root, by one counter for all of them. -/
def scan (root : Path) : StateM Process Tally := do
  let visits := (← get).fileSystem.visitsBelow root
  (scanVisits root .empty visits).run' .fresh

/-- The folders that a command line names, none if it makes no sense. -/
def parseArguments (parse : ArgumentParser) (commandLine : List Bytes) : StateM Process (List Path) := do
  match parse (marked commandLine) with
  | some folders => return folders
  | none =>
    tell .argumentsRejected
    return []

/-- Prints the scan of a folder, or says that one folder is required. -/
def print : List Path → StateM Process (Except PrintError Outcome)
  | [folder] => do
    let tally ← scan folder
    match ← printLine tally.toValue with
    | none => return .ok .scanned
    | some e => return .error ⟨some folder, e⟩
  | _ => do
    match ← printLine ErrorReport.folderPathRequired.toValue with
    | none => return .ok .usageError
    | some e => return .error ⟨none, e⟩

/-- A process that has done nothing. Its log is off until it is told otherwise. -/
def start (fs : FileSystem) (stdout : Sink) : Process := ⟨fs, Logging.off.shows, ⟨stdout, []⟩, ""⟩

end Process

namespace Invocation

/-- What the program does, with its exit status. What there is to say of the setting of the log is
said first. -/
def program (parse : ArgumentParser) (reader : SettingReader) (i : Invocation) : StateM Process Nat := do
  let logging := i.logging reader
  modify fun p => { p with shows := logging.shows }
  Process.writeError logging.notice
  let folders ← Process.parseArguments parse i.commandLine
  match ← Process.print folders with
  | .ok outcome => return outcome.status
  | .error e =>
    Process.writeError e.report
    return 1

/-- Runs the program on a file system with its output going to a sink: what it leaves, and the file
system afterwards. -/
def perform (parse : ArgumentParser) (reader : SettingReader) (i : Invocation) (fs : FileSystem)
    (stdout : Sink) : Result × FileSystem :=
  let (status, p) := i.program parse reader (.start fs stdout)
  (⟨status, p.stdout.target.accepted, p.stderr⟩, p.fileSystem)

end Invocation

/-! ## Sessions -/

/-- Something that is asked of a counter, or of the functions that make one for themselves. -/
inductive Question where
  | tryCount (path : Path)
  | count (path : Path)
  | countAlone (path : Path)
  | scan (root : Path)

/-- What is answered to a question. -/
inductive Answer where
  | counted (result : Except CountError Nat)
  | number (n : Nat)
  | tally (t : Tally)

/-- Answers a question with a counter at hand. -/
def Question.ask : Question → Counting Answer
  | tryCount path => return .counted (← Process.tryCount path)
  | count path => return .number (← Process.count path)
  | countAlone path => return .number (← Process.countAlone path)
  | scan root => return .tally (← Process.scan root)

/-- A step of a session: the file system becomes another one, or a question is asked. -/
inductive Step where
  | become (fs : FileSystem)
  | ask (q : Question)

/-- The answers to the questions of a session, one counter being at hand for all of them. -/
def session : List Step → Counting (List Answer)
  | [] => return []
  | .become fs :: rest => do
    modifyThe Process fun p => { p with fileSystem := fs }
    session rest
  | .ask q :: rest => do
    let answer ← q.ask
    return answer :: (← session rest)

end DefTally
