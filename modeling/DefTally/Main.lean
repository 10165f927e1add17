import DefTally.FileSystem.Listing
import DefTally.Process

/-!
# The program

Reads the listing of a file system from standard input and scans the folder that is named on
the command line.
-/

namespace DefTally

/-- All the text of a stream. -/
partial def readAll (stream : IO.FS.Stream) (before : String) : IO String := do
  let line ← stream.getLine
  if line.isEmpty then return before
  readAll stream (before ++ line)

/-- The bytes of a text. -/
def utf8 (s : String) : Text.Bytes := s.toUTF8.toList

end DefTally

open DefTally in
/-- Runs the command on the listing on standard input. -/
def main (arguments : List String) : IO UInt32 := do
  let listing ← readAll (← IO.getStdin) ""
  match FileSystem.ofListing? listing.toList with
  | none =>
    (← IO.getStderr).putStr "standard input is no listing of a file system\n"
    return 2
  | some fs =>
    let setting := (← IO.getEnv logVariable).map fun value => (logVariable, utf8 value)
    let invocation : Invocation := ⟨(arguments.map utf8).cons (utf8 "deftally"), setting.toList⟩
    let (result, _) := invocation.perform .values .lenient fs .unlimited
    (← IO.getStderr).putStr result.stderr
    (← IO.getStdout).write ⟨result.stdout.toArray⟩
    return result.status.toUInt32
