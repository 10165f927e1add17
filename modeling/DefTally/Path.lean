import DefTally.Text.Utf8

/-!
# Paths

A path is a byte string and keeps its spelling. Its components are read off the text: a
leading slash, a leading dot, and the names between slashes; dots elsewhere, repeated slashes
and a slash at the end are no components, and `..` is a name like any other. Every component
knows where it stands (`Span`), so that the rest of a path after a prefix can be cut out of
its own text (`Path.stripPrefix?`).
-/

namespace DefTally

open DefTally.Text

/-- A path, as it is spelled. -/
structure Path where
  text : Bytes
  deriving DecidableEq, Repr

namespace Path

/-- The byte between names. -/
def slash : UInt8 := 0x2f

/-- The name of a directory in itself. -/
def dot : Bytes := [0x2e]

/-- The name of a directory's parent in it. -/
def dotDot : Bytes := [0x2e, 0x2e]

/-- A name that an entry of a directory can have. -/
structure Legal (name : Bytes) : Prop where
  nonempty : name ≠ []
  slashless : slash ∉ name
  not_dot : name ≠ dot
  not_dotDot : name ≠ dotDot

instance (name : Bytes) : Decidable (Legal name) :=
  decidable_of_iff (name ≠ [] ∧ slash ∉ name ∧ name ≠ dot ∧ name ≠ dotDot)
    ⟨fun ⟨nonempty, slashless, notDot, notDotDot⟩ => ⟨nonempty, slashless, notDot, notDotDot⟩,
      fun legal => ⟨legal.nonempty, legal.slashless, legal.not_dot, legal.not_dotDot⟩⟩

/-- A component of a path. -/
inductive Component where
  | root
  | current
  | name (bytes : Bytes)
  deriving DecidableEq, Repr

/-- A component with the positions where its text starts and stops. -/
structure Span where
  component : Component
  start : Nat
  stop : Nat
  deriving DecidableEq, Repr

/-- A run of bytes without a slash, with the position where it starts. -/
structure Run where
  start : Nat
  bytes : Bytes
  deriving DecidableEq, Repr

/-- The runs between the slashes of a text that starts at a position: one more than there are
slashes. -/
def runsFrom (start : Nat) : Bytes → List Run
  | [] => [⟨start, []⟩]
  | b :: rest =>
    if b = slash then ⟨start, []⟩ :: runsFrom (start + 1) rest
    else match runsFrom (start + 1) rest with
      | [] => [⟨start, [b]⟩]
      | r :: rs => ⟨start, b :: r.bytes⟩ :: rs

/-- The runs between the slashes of a path. -/
def runs (p : Path) : List Run := runsFrom 0 p.text

/-- The path begins at the root. -/
def isAbsolute (p : Path) : Bool := p.text.head? = some slash

/-- The path ends in a slash, which only a directory's may. -/
def endsInSlash (p : Path) : Bool := p.text.getLast? = some slash

/-- The names of a path as they are looked up one after the other, dots among them. -/
def names (p : Path) : List Bytes := (p.runs.map Run.bytes).filter (· ≠ [])

/-- The component that a run is, if it is one: a dot is one only at the start of the text. -/
def Run.span? (r : Run) : Option Span :=
  if r.bytes = [] then none
  else if r.bytes = dot then if r.start = 0 then some ⟨.current, 0, 1⟩ else none
  else some ⟨.name r.bytes, r.start, r.start + r.bytes.length⟩

/-- The components of a path where they stand. -/
def spans (p : Path) : List Span :=
  (if p.isAbsolute then [⟨.root, 0, 1⟩] else []) ++ p.runs.filterMap Run.span?

/-- The components of a path. -/
def components (p : Path) : List Component := p.spans.map Span.component

/-- The components that are left after a prefix. -/
def afterPrefix : List Component → List Span → Option (List Span)
  | [], rest => some rest
  | _ :: _, [] => none
  | c :: cs, s :: rest => if s.component = c then afterPrefix cs rest else none

/-- The text of a path from the first of some components to the last. -/
def cut (p : Path) (rest : List Span) : Path :=
  match rest.head?, rest.getLast? with
  | some first, some last => ⟨(p.text.take last.stop).drop first.start⟩
  | _, _ => ⟨[]⟩

/-- The rest of a path after the components of another one. -/
def stripPrefix? (p base : Path) : Option Path := (afterPrefix base.components p.spans).map p.cut

/-- The path of a name in a directory, with one slash between them. -/
def join (p : Path) (name : Bytes) : Path :=
  if name.head? = some slash || p.text.isEmpty then ⟨name⟩
  else if p.endsInSlash then ⟨p.text ++ name⟩
  else ⟨p.text ++ slash :: name⟩

/-- The last component of a path, if it is the name of something. -/
def fileName? (p : Path) : Option Bytes :=
  match p.components.getLast? with
  | some (.name n) => if n = dotDot then none else some n
  | _ => none

/-- A path as it is shown, with a replacement character for what is no character. -/
def shown (p : Path) : String := String.ofList (Utf8.decodeLossy p.text)

/-- The key of a path below a root: its place relative to the root, or the whole path if the
root is no prefix of it. -/
def relativeKey (root p : Path) : String := ((p.stripPrefix? root).getD p).shown

end Path

end DefTally
