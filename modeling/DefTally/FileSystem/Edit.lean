import DefTally.FileSystem.Resolve

/-!
# Changing a file system

Making directories, files and links, shutting and removing them (`Change`). What cannot be done is
left undone, and so is what would leave no file system (`FileSystem.set`).
-/

namespace DefTally.FileSystem

open DefTally.Text

/-- Makes names lead to a node, or to none. All stays as it is if a name is not legal, if the
node is not well named or if the working directory would be gone. -/
def set (fs : FileSystem) (names : List Bytes) (new : Option Node) : FileSystem :=
  if fits : (∀ name ∈ names, Path.Legal name) ∧ (∀ node ∈ new, node.WellNamed) ∧
      (fs.root.alter (fun _ => new) names).HasDirectory fs.working then
    { root := fs.root.alter (fun _ => new) names
      working := fs.working
      wellNamed := fs.wellNamed.alter (fun _ _ _ made => fits.2.1 _ made) names _ fits.1
      hasWorking := fits.2.2 }
  else fs

/-- Puts a node at the place that names lead to. -/
def put (fs : FileSystem) (names : List Bytes) (node : Node) : FileSystem := fs.set names (some node)

/-- Makes the directories that names lead to from a place on, those that are not there. A link
to nothing is there, and nothing is made beyond it. -/
def makeNames (fs : FileSystem) (here : Place) : List Bytes → FileSystem
  | [] => fs
  | name :: rest =>
    match walk fs.root false maxLinks false here [name] with
    | .ok (.missing directory name) =>
      let names := directory ++ [name]
      (fs.put names (.directory [])).makeNames ⟨names, .directory []⟩ rest
    | _ =>
      match walk fs.root true maxLinks false here [name] with
      | .ok (.place next) => fs.makeNames next rest
      | _ => fs

/-- Makes a directory and its parents. -/
def makeDirectory (fs : FileSystem) (p : Path) : FileSystem :=
  fs.makeNames (startOf fs p) p.names

/-- Makes the parents of a path. -/
def makeParents (fs : FileSystem) (p : Path) : FileSystem :=
  fs.makeNames (startOf fs p) p.names.dropLast

/-- Writes a file where there is nothing or another file, also through a link, after making the
parents of the path. -/
def writeFile (fs : FileSystem) (p : Path) (content : Bytes) : FileSystem :=
  let fs := fs.makeParents p
  match fs.locate true p with
  | .ok (.place ⟨names, .file _⟩) => fs.put names (.file content)
  | .ok (.missing directory name) => fs.put (directory ++ [name]) (.file content)
  | _ => fs

/-- Puts a node where there is nothing, after making the parents of the path. -/
def make (fs : FileSystem) (p : Path) (node : Node) : FileSystem :=
  let fs := fs.makeParents p
  match fs.locate false p with
  | .ok (.missing directory name) => fs.put (directory ++ [name]) node
  | _ => fs

/-- Makes a link. -/
def makeLink (fs : FileSystem) (p target : Path) : FileSystem := fs.make p (.link target)

/-- Makes a pipe, of which nothing is read. -/
def makePipe (fs : FileSystem) (p : Path) : FileSystem := fs.make p (.special [])

/-- Takes away the permission to open a file or directory, also through a link. -/
def shut (fs : FileSystem) (p : Path) : FileSystem :=
  match fs.locate true p with
  | .ok (.place here) =>
    match here.node.kind with
    | .file => fs.put here.names (.shut false .permissionDenied)
    | .directory => fs.put here.names (.shut true .permissionDenied)
    | _ => fs
  | _ => fs

/-- Removes what a path leads to, a link rather than its target. -/
def remove (fs : FileSystem) (p : Path) : FileSystem :=
  match fs.locate false p with
  | .ok (.place here) => fs.set here.names none
  | _ => fs

/-- A change to a file system. -/
inductive Change where
  | makeDirectory (p : Path)
  | writeFile (p : Path) (content : Bytes)
  | makeLink (p target : Path)
  | makePipe (p : Path)
  | shut (p : Path)
  | remove (p : Path)

/-- The file system after a change. -/
def apply (fs : FileSystem) : Change → FileSystem
  | .makeDirectory p => fs.makeDirectory p
  | .writeFile p content => fs.writeFile p content
  | .makeLink p target => fs.makeLink p target
  | .makePipe p => fs.makePipe p
  | .shut p => fs.shut p
  | .remove p => fs.remove p

/-- Changes the working directory. -/
def enter (fs : FileSystem) (p : Path) : FileSystem :=
  match fs.locate true p with
  | .ok (.place ⟨names, .directory _⟩) =>
    if there : fs.root.HasDirectory names then { fs with working := names, hasWorking := there }
    else fs
  | _ => fs

end DefTally.FileSystem
