import DefTally.FileSystem.Node

/-!
# File systems

A file system is a tree of nodes with a working directory. It carries the proofs that the tree is
well named and that the working directory is there. There are no hard links: a node has one
place, told by the names that lead to it from the root.
-/

namespace DefTally

/-- A file system, with the names that lead from its root to the working directory. -/
@[ext]
structure FileSystem where
  root : FileSystem.Node
  working : List Text.Bytes
  wellNamed : root.WellNamed
  hasWorking : root.HasDirectory working

/-- The file system with nothing but the root. -/
def FileSystem.empty : FileSystem := ⟨.directory [], [], by decide, by decide⟩

end DefTally
