import DefTally.FileSystem.Resolve

/-!
# Looking up a name

What a name comes to that is looked up from a place (`lookUp`) is settled before the rest of the path
is looked at: of the names that are left a walk looks up the first, and what it does then is one of
four things (`walkNames_cons`). `LooksUp` says when it is which, so what a walk keeps is what all its
cases keep.

A path is refused for its text alone, in every file system in the same way, or its names are walked
along (`locate_cases`).
-/

namespace DefTally.FileSystem

open DefTally.Text

/-- What a name comes to that is looked up from a place. -/
inductive Lookup where
  | refused (e : Failure)
  /-- The walk goes on from a place. -/
  | place (there : Place)
  | link (target : Path)
  /-- The directory does not have the name. -/
  | absent

/-- Why no name is looked up in a node that is no directory, or one that cannot be opened. -/
def Node.refusal : Node → Failure
  | shut true failure => failure
  | _ => .notDirectory

/-- Looks up a name from a place. -/
def lookUp (root : Node) (here : Place) (name : Bytes) : Lookup :=
  match here.node with
  | .directory entries =>
    if name = Path.dot then .place here
    else if name = Path.dotDot then .place (parent root here)
    else if maxName < name.length then .refused .nameTooLong
    else match entries.lookup name with
      | none => .absent
      | some (.link target) => .link target
      | some node => .place ⟨here.names ++ [name], node⟩
  | node => .refused node.refusal

/-- Every way in which a lookup can end, with what it is that makes it end so. -/
inductive LooksUp (root : Node) (here : Place) (name : Bytes) : Lookup → Prop where
  | closed (closed : ∀ entries, here.node ≠ .directory entries) :
      LooksUp root here name (.refused here.node.refusal)
  | own (isOwn : name = Path.dot) : LooksUp root here name (.place here)
  | up (isUp : name = Path.dotDot) : LooksUp root here name (.place (parent root here))
  | tooLong (long : maxName < name.length) : LooksUp root here name (.refused .nameTooLong)
  | entry {entries : List (Bytes × Node)} {node : Node} (at_ : here.node = .directory entries)
      (found : entries.lookup name = some node) (notLink : node.kind ≠ .link) :
      LooksUp root here name (.place ⟨here.names ++ [name], node⟩)
  | link {entries : List (Bytes × Node)} {target : Path} (at_ : here.node = .directory entries)
      (found : entries.lookup name = some (.link target)) : LooksUp root here name (.link target)
  | absent {entries : List (Bytes × Node)} (at_ : here.node = .directory entries)
      (notDot : name ≠ Path.dot) (notDotDot : name ≠ Path.dotDot)
      (missing : entries.lookup name = none) : LooksUp root here name .absent

theorem looksUp (root : Node) (here : Place) (name : Bytes) :
    LooksUp root here name (lookUp root here name) := by
  rw [lookUp]
  split
  case h_2 => exact .closed ‹_›
  case h_1 entries at_ =>
    split
    · next isOwn => exact .own isOwn
    next notDot =>
    split
    · next isUp => exact .up isUp
    next notDotDot =>
    split
    · next long => exact .tooLong long
    cases found : entries.lookup name with
    | none => exact .absent at_ notDot notDotDot found
    | some node =>
      cases node with
      | link target => exact .link at_ found
      | file | directory | special => exact .entry at_ found (by simp [Node.kind])
      | shut isDirectory => exact .entry at_ found (by cases isDirectory <;> simp [Node.kind])

section Walk

variable {root : Node} {onLink : Bool → Place → Path → List Bytes → Except Failure Found}

/-- A walk looks up the first name and goes on from there. -/
theorem walkNames_cons (follow asks : Bool) (here : Place) (name : Bytes) (rest : List Bytes) :
    walkNames root follow onLink asks here (name :: rest) = match lookUp root here name with
      | .refused e => .error e
      | .place there => walkNames root follow onLink asks there rest
      | .link target =>
        if rest.isEmpty && !follow && !asks then .ok (.place ⟨here.names ++ [name], .link target⟩)
        else onLink asks here target rest
      | .absent => if rest.isEmpty then .ok (.missing here.names name) else .error .notFound := by
  rw [walkNames, lookUp]
  cases here.node with
  | file | link | special => rfl
  | shut isDirectory => cases isDirectory <;> rfl
  | directory entries =>
    dsimp only
    by_cases own : name = Path.dot
    · rw [if_pos own, if_pos own]
    by_cases up : name = Path.dotDot
    · rw [if_neg own, if_neg own, if_pos up, if_pos up]
    by_cases long : maxName < name.length
    · simp only [if_neg own, if_neg up, if_pos long]
    simp only [if_neg own, if_neg up, if_neg long]
    cases entries.lookup name with
    | none => rfl
    | some node => cases node <;> rfl

/-- A walk that follows links goes on from the directory of a link. -/
theorem walkNames_cons_followed (asks : Bool) (here : Place) (name : Bytes) (rest : List Bytes) :
    walkNames root true onLink asks here (name :: rest) = match lookUp root here name with
      | .refused e => .error e
      | .place there => walkNames root true onLink asks there rest
      | .link target => onLink asks here target rest
      | .absent => if rest.isEmpty then .ok (.missing here.names name) else .error .notFound := by
  rw [walkNames_cons]
  cases lookUp root here name with
  | refused | place | absent => rfl
  | link target =>
    have followed : (rest.isEmpty && !true && !asks) = false := by simp
    simp only [followed, Bool.false_eq_true, if_false]

theorem lookUp_dot {here : Place} {entries : List (Bytes × Node)}
    (at_ : here.node = .directory entries) : lookUp root here Path.dot = .place here := by
  simp only [lookUp, at_, if_true]

/-- Nothing is looked up in a node that is no open directory. -/
theorem lookUp_of_closed {here : Place} (closed : ∀ entries, here.node ≠ .directory entries)
    (name : Bytes) : lookUp root here name = .refused here.node.refusal := by
  rw [lookUp]
  cases at_ : here.node with
  | file | link | special | shut => rfl
  | directory entries => exact absurd at_ (closed entries)

end Walk

/-! ## Where a path leads -/

/-- The working directory is in the tree. -/
theorem exists_working (fs : FileSystem) : ∃ node, fs.root.descend fs.working = some node :=
  Option.isSome_iff_exists.1 fs.hasWorking.isSome

theorem startOf_eq {fs : FileSystem} {node : Node} (at_ : fs.root.descend fs.working = some node)
    (p : Path) : startOf fs p = if p.isAbsolute then ⟨[], fs.root⟩ else ⟨fs.working, node⟩ := by
  simp only [startOf, at_, Option.get_some]

/-- A path that is neither empty nor too long leads to where its names lead. -/
theorem locate_eq {fs : FileSystem} {p : Path} (noNul : 0 ∉ p.text) (filled : p.text ≠ [])
    (short : p.text.length ≤ maxPath) (follow : Bool) : fs.locate follow p =
      walk fs.root follow maxLinks p.endsInSlash (startOf fs p) p.names := by
  rw [locate, if_neg (by simpa using noNul), if_neg (by simpa using filled),
    if_neg (Nat.not_lt.2 short)]

theorem locate_of_nul {fs : FileSystem} {p : Path} (nul : 0 ∈ p.text) (follow : Bool) :
    fs.locate follow p = .error .embeddedNul := by
  rw [locate, if_pos (by simpa using nul)]

/-- A path is refused for its text alone, or its names are walked along. -/
theorem locate_cases (p : Path) :
    (∃ e, ∀ (fs : FileSystem) follow, fs.locate follow p = .error e) ∨
      0 ∉ p.text ∧ p.text ≠ [] ∧ p.text.length ≤ maxPath ∧
        ∀ (fs : FileSystem) follow, fs.locate follow p =
          walk fs.root follow maxLinks p.endsInSlash (startOf fs p) p.names := by
  by_cases nul : 0 ∈ p.text
  · exact .inl ⟨_, fun _ follow => locate_of_nul nul follow⟩
  have noNul : ¬p.text.contains 0 = true := by simpa using nul
  by_cases empty : p.text.isEmpty = true
  · exact .inl ⟨_, fun fs follow => by rw [locate, if_neg noNul, if_pos empty]⟩
  by_cases long : maxPath < p.text.length
  · exact .inl ⟨_, fun fs follow => by rw [locate, if_neg noNul, if_neg empty, if_pos long]⟩
  · have filled : p.text ≠ [] := by simpa using empty
    have short := Nat.not_lt.1 long
    exact .inr ⟨nul, filled, short, fun _ follow => locate_eq nul filled short follow⟩

/-- A path that leads to a node leads to a place with it. -/
theorem locate_of_resolve {fs : FileSystem} {follow : Bool} {p : Path} {node : Node}
    (found : fs.resolve follow p = .ok node) :
    ∃ here : Place, here.node = node ∧ fs.locate follow p = .ok (.place here) := by
  rw [resolve] at found
  cases at_ : fs.locate follow p with
  | error e => simp [at_] at found
  | ok result =>
    rw [at_] at found
    cases result with
    | place here => exact ⟨here, Except.ok.inj found, rfl⟩
    | missing => cases found

end DefTally.FileSystem
