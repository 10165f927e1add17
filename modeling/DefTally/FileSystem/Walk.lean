import DefTally.FileSystem.Resolve

/-!
# Walking a directory

`FileSystem.visits` lists everything below a root: the root first, the entries of every
directory by name, and the contents of a directory right after it, or why they cannot be
listed. Links are not entered, except that the root is followed if it is one. The walk goes over
the tree with all its directories sorted, so the order in which they list their entries does not
show.
-/

namespace DefTally.FileSystem

open DefTally.Text

/-- What a walk comes to. -/
inductive Visit where
  | entry (path : Path) (kind : Kind)
  | unreadable (path : Path) (failure : Failure)

/-- Puts entries in the order of their names. -/
def sortEntries (entries : List (Bytes × Node)) : List (Bytes × Node) :=
  entries.mergeSort fun a b => !decide (b.1 < a.1)

namespace Node

mutual

/-- The node with all directories in order. -/
def sorted : Node → Node
  | file content => file content
  | directory entries => directory (sortEntries (sortedAll entries))
  | link target => link target
  | special content => special content
  | shut isDirectory failure => shut isDirectory failure

/-- Entries whose nodes have all directories in order. -/
def sortedAll : List (Bytes × Node) → List (Bytes × Node)
  | [] => []
  | (name, node) :: rest => (name, node.sorted) :: sortedAll rest

end

mutual

/-- The visits of a walk below a node, in the order of its entries. What is in a directory is
listed by the directory's path. -/
def visitsInside (path : Path) : Node → List Visit
  | directory entries =>
    if maxPath < path.text.length then [.unreadable path .nameTooLong] else visitsAll path entries
  | shut true failure =>
    [.unreadable path (if maxPath < path.text.length then .nameTooLong else failure)]
  | _ => []

/-- The visits of a walk at entries of a directory and below them. -/
def visitsAll (path : Path) : List (Bytes × Node) → List Visit
  | [] => []
  | (name, node) :: rest =>
    .entry (path.join name) node.kind :: node.visitsInside (path.join name) ++ visitsAll path rest

end

/-- The visits of a walk at a node and below it. -/
def visits (path : Path) (node : Node) : List Visit := .entry path node.kind :: node.visitsInside path

end Node

/-- The visits of a walk from a root. -/
def visits (fs : FileSystem) (root : Path) : List Visit :=
  match fs.resolve false root with
  | .error e => [.unreadable root e]
  | .ok (.link _) =>
    match fs.resolve true root with
    | .error e => [.unreadable root e]
    | .ok node => .entry root .link :: node.sorted.visitsInside root
  | .ok node => node.sorted.visits root

/-- The visits of a walk, without that of the root itself. -/
def visitsBelow (fs : FileSystem) (root : Path) : List Visit :=
  match fs.visits root with
  | .entry _ _ :: rest => rest
  | rest => rest

end DefTally.FileSystem
