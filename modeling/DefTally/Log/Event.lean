import DefTally.Scan

/-!
# Log events

What a run has to tell apart from its result: files that count as zero and why, files with
their counts, entries that could not be read, arguments that made no sense. An event has a
level, the part of the program that it comes from, and a text.
-/

namespace DefTally.Log

open DefTally.FileSystem

/-- How much an event matters, from little to much. -/
inductive Level where
  | trace
  | debug
  | info
  | warn
  | error
  deriving DecidableEq, Repr

namespace Level

/-- The name of a level, as wide as the widest. -/
def label : Level → String
  | trace => "TRACE"
  | debug => "DEBUG"
  | info => " INFO"
  | warn => " WARN"
  | error => "ERROR"

/-- The place of a level among the levels, from the one that matters most. -/
def rank : Level → Nat
  | error => 1
  | warn => 2
  | info => 3
  | debug => 4
  | trace => 5

end Level

/-- Something to tell. -/
inductive Event where
  | argumentsRejected
  | entrySkipped (root path : Path) (failure : Failure)
  | countedAsZero (path : Path) (error : CountError)
  | counted (path : Path) (count : Nat)
  deriving DecidableEq, Repr

namespace Event

/-- How much an event matters. -/
def level : Event → Level
  | counted _ _ => .trace
  | _ => .debug

/-- The part of the program that an event comes from. -/
def target : Event → String
  | argumentsRejected => "funcscan::cli"
  | entrySkipped _ _ _ => "funcscan::core::scanner"
  | countedAsZero _ _ => "funcscan::core::counter"
  | counted _ _ => "funcscan::core::counter"

/-- What is wrong with an empty argument. -/
def emptyArgument : String :=
  "error: a value is required for '[FOLDERS]...' but none was supplied\n"

/-- The words for an event. -/
def text : Event → String
  | argumentsRejected => "unrecognised arguments error=" ++ emptyArgument
  | entrySkipped root path failure =>
    "skipping unreadable entry root=" ++ root.shown ++ " error=IO error for operation on " ++
      path.shown ++ ": " ++ failure.message
  | countedAsZero path error =>
    "file counted as zero path=" ++ path.shown ++ " error=" ++ error.message
  | counted path count =>
    "counted functions path=" ++ path.shown ++ " count=" ++ toString count

/-- An event as a line of the log. -/
def line (e : Event) : String := e.level.label ++ " " ++ e.text ++ "\n"

/-- The event of a finding of a scan. -/
def ofFinding (root : Path) : Finding → Event
  | .unreadable path failure => entrySkipped root path failure
  | .source path (.ok n) => counted path n
  | .source path (.error e) => countedAsZero path e

end Event

end DefTally.Log
