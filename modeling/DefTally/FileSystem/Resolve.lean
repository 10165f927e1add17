import DefTally.FileSystem.Basic

/-!
# Resolving paths

`FileSystem.locate` walks a path name by name from the root or the working directory, follows
the links it meets, and tells the place it comes to or why it comes to none. Nothing is looked
up in a directory that cannot be opened. A path may follow forty links, be 4095 bytes long and
have names of 255 bytes.
-/

namespace DefTally.FileSystem

open DefTally.Text

/-- A node and the names that lead to it from the root. -/
structure Place where
  names : List Bytes
  node : Node

/-- Where a path leads. -/
inductive Found where
  /-- To a node. -/
  | place (p : Place)
  /-- To a name that a directory does not have. -/
  | missing (directory : List Bytes) (name : Bytes)

/-- How many links a path may follow. -/
def maxLinks : Nat := 40

/-- How long a path may be. -/
def maxPath : Nat := 4095

/-- How long a name may be. -/
def maxName : Nat := 255

/-- The parent of a place; the root is its own. -/
def parent (root : Node) (p : Place) : Place :=
  let names := p.names.dropLast
  ⟨names, (root.descend names).getD root⟩

/-- Walks along names. A link at the end is followed if `follow` says so or if the path asks
for a directory; `onLink` goes on from the directory of a link. -/
def walkNames (root : Node) (follow : Bool)
    (onLink : Bool → Place → Path → List Bytes → Except Failure Found)
    (asksDirectory : Bool) (here : Place) : List Bytes → Except Failure Found
  | [] =>
    if asksDirectory && here.node.kind != .directory then .error .notDirectory
    else .ok (.place here)
  | name :: rest =>
    match here.node with
    | .directory entries =>
      if name = Path.dot then walkNames root follow onLink asksDirectory here rest
      else if name = Path.dotDot then
        walkNames root follow onLink asksDirectory (parent root here) rest
      else if maxName < name.length then .error .nameTooLong
      else match entries.lookup name with
        | none => if rest.isEmpty then .ok (.missing here.names name) else .error .notFound
        | some (.link target) =>
          if rest.isEmpty && !follow && !asksDirectory then
            .ok (.place ⟨here.names ++ [name], .link target⟩)
          else onLink asksDirectory here target rest
        | some node =>
          walkNames root follow onLink asksDirectory ⟨here.names ++ [name], node⟩ rest
    | .shut true failure => .error failure
    | _ => .error .notDirectory

/-- Walks along names, following at most so many links. -/
def walk (root : Node) (follow : Bool) : Nat → Bool → Place → List Bytes → Except Failure Found
  | 0 => walkNames root follow fun _ _ _ _ => .error .linkLoop
  | links + 1 => walkNames root follow fun asksDirectory here target rest =>
    walk root follow links (asksDirectory || (rest.isEmpty && target.endsInSlash))
      (if target.isAbsolute then ⟨[], root⟩ else here) (target.names ++ rest)

/-- The directory that a path starts from. -/
def startOf (fs : FileSystem) (p : Path) : Place :=
  if p.isAbsolute then ⟨[], fs.root⟩
  else ⟨fs.working, (fs.root.descend fs.working).get fs.hasWorking.isSome⟩

/-- Where a path leads; `follow` says whether a link at its end is followed. -/
def locate (fs : FileSystem) (follow : Bool) (p : Path) : Except Failure Found :=
  if p.text.contains 0 then .error .embeddedNul
  else if p.text.isEmpty then .error .notFound
  else if maxPath < p.text.length then .error .nameTooLong
  else walk fs.root follow maxLinks p.endsInSlash (startOf fs p) p.names

/-- The node that a path leads to. -/
def resolve (fs : FileSystem) (follow : Bool) (p : Path) : Except Failure Node :=
  match fs.locate follow p with
  | .ok (.place here) => .ok here.node
  | .ok (.missing _ _) => .error .notFound
  | .error e => .error e

/-- The bytes that are read of a file. -/
def read (fs : FileSystem) (p : Path) : Except Failure Bytes :=
  match fs.resolve true p with
  | .ok (.file content) => .ok content
  | .ok (.special content) => .ok content
  | .ok (.shut _ failure) => .error failure
  | .ok (.directory _) => .error .isDirectory
  | .ok (.link _) => .error .linkLoop
  | .error e => .error e

/-- A path leads to a directory. -/
def isDirectory (fs : FileSystem) (p : Path) : Bool :=
  match fs.resolve true p with
  | .ok node => node.kind == .directory
  | .error _ => false

end DefTally.FileSystem
