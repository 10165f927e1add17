import DefTally.Count
import DefTally.Dictionary
import DefTally.FileSystem.Walk

/-!
# Scanning a directory

A scan walks everything below a root and counts the source files it comes to. `findings` tells
what the walk came to, in order, and `scan` is the map from the keys of the files to their
counts: a file that has no count is there with zero, what could not be read is not there.
-/

namespace DefTally

open DefTally.FileSystem DefTally.Text

/-- How many top-level functions each file defines, by its place below a root. -/
abbrev Tally := Dictionary Nat

/-- How the name of a source file ends. -/
def sourceSuffix : Bytes := [0x2e, 0x70, 0x79]

/-- The name of a source file; a path that ends in no name is taken as a whole. -/
def hasSourceName (path : Path) : Bool := sourceSuffix.isSuffixOf (path.fileName?.getD path.text)

/-- An entry is a source file by its name and by what it is: a file, or a link that does not
lead to a directory. -/
def FileSystem.isSource (fs : FileSystem) (path : Path) (kind : Kind) : Bool :=
  hasSourceName path && (kind == .file || (kind == .link && !fs.isDirectory path))

/-- Something that a scan came to. -/
inductive Finding where
  | unreadable (path : Path) (failure : Failure)
  | source (path : Path) (result : Except CountError Nat)

/-- What a visit of a walk is to a scan, if it is anything. -/
def FileSystem.finding? (fs : FileSystem) : Visit → Option Finding
  | .entry path kind => if fs.isSource path kind then some (.source path (fs.tryCount path)) else none
  | .unreadable path failure => some (.unreadable path failure)

/-- What a scan comes to below a root, in the order of the walk. -/
def FileSystem.findings (fs : FileSystem) (root : Path) : List Finding :=
  (fs.visitsBelow root).filterMap fs.finding?

/-- The entry that a finding makes in the tally. -/
def Finding.entry? (root : Path) : Finding → Option (String × Nat)
  | unreadable _ _ => none
  | source path (.ok n) => some (root.relativeKey path, n)
  | source path (.error _) => some (root.relativeKey path, 0)

/-- The tally of findings; of files with one key, the last one counts. -/
def tallyOf (root : Path) (findings : List Finding) : Tally :=
  .ofList (findings.filterMap (Finding.entry? root))

/-- The counts of the source files below a root. -/
def FileSystem.scan (fs : FileSystem) (root : Path) : Tally := tallyOf root (fs.findings root)

end DefTally
