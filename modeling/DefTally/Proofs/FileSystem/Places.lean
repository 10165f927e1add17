import DefTally.Proofs.FileSystem.Lookup

/-!
# Places in a file system

What a path leads to is in the tree, at the place that its names tell (`locate_in`). So what holds
throughout the tree holds of it; above all it is well named (`resolve_wellNamed`).
-/

namespace DefTally.FileSystem

open DefTally.Text

theorem mem_of_lookup {entries : List (Bytes × Node)} {name : Bytes} {node : Node}
    (h : entries.lookup name = some node) : (name, node) ∈ entries := by
  obtain ⟨before, after, split, -⟩ := List.lookup_eq_some_iff.1 h
  exact split ▸ List.mem_append_right _ List.mem_cons_self

theorem Node.WellNamed.child {entries : List (Bytes × Node)} {name : Bytes} {node : Node}
    (named : (Node.directory entries).WellNamed) (h : entries.lookup name = some node) :
    Path.Legal name ∧ node.WellNamed := by
  cases named with
  | directory here inner => exact ⟨here.legal _ (mem_of_lookup h), inner _ (mem_of_lookup h)⟩

theorem Node.descend_cons {node found : Node} {name : Bytes} {rest : List Bytes}
    (at_ : node.descend (name :: rest) = some found) :
    ∃ entries child, node = .directory entries ∧ entries.lookup name = some child ∧
      child.descend rest = some found := by
  cases node with
  | file | link | special | shut => cases at_
  | directory entries =>
    rw [Node.descend] at at_
    split at at_
    · next child entry => exact ⟨entries, child, rfl, entry, at_⟩
    · cases at_

/-- What names lead down to in a tree is as the tree is throughout. -/
theorem Node.Throughout.descend {P : List (Bytes × Node) → Prop} {names : List Bytes} :
    ∀ {node found : Node}, node.Throughout P → node.descend names = some found → found.Throughout P := by
  induction names with
  | nil => exact fun throughout at_ => Option.some.inj at_ ▸ throughout
  | cons name rest ih =>
    intro node found throughout at_
    obtain ⟨entries, child, rfl, listed, below⟩ := Node.descend_cons at_
    cases throughout with
    | directory _ inner => exact ih (inner _ (mem_of_lookup listed)) below

theorem Node.descend_append (a b : List Bytes) : ∀ node : Node,
    node.descend (a ++ b) = (node.descend a).bind (·.descend b) := by
  induction a with
  | nil => exact fun _ => rfl
  | cons name rest ih =>
    intro node
    cases node with
    | file | link | special | shut => rfl
    | directory entries =>
      rw [List.cons_append, Node.descend, Node.descend]
      cases entries.lookup name with
      | none => rfl
      | some child => exact ih child

/-! ## Places in a tree -/

/-- The names of a place lead to its node. -/
def Place.In (root : Node) (p : Place) : Prop := root.descend p.names = some p.node

/-- What a path leads to is in the tree, if it is a place. -/
def FoundIn (root : Node) (result : Except Failure Found) : Prop :=
  ∀ p, result = .ok (.place p) → p.In root

section Walk

variable {root : Node}

theorem parent_in {p : Place} (inside : p.In root) : (parent root p).In root := by
  have above : (root.descend p.names.dropLast).isSome := by
    by_cases top : p.names = []
    · rw [top]; rfl
    have split := List.dropLast_concat_getLast top
    rw [Place.In, ← split, Node.descend_append] at inside
    exact Option.isSome_of_mem (Option.bind_eq_some_iff.1 inside).choose_spec.1
  obtain ⟨node, above⟩ := Option.isSome_iff_exists.1 above
  simp only [Place.In, parent, above, Option.getD_some]

theorem child_in {here : Place} {entries : List (Bytes × Node)} {name : Bytes} {node : Node}
    (inside : here.In root) (at_ : here.node = .directory entries)
    (entry : entries.lookup name = some node) : (Place.mk (here.names ++ [name]) node).In root := by
  rw [Place.In, Node.descend_append, show root.descend here.names = some here.node from inside, at_,
    Option.bind_some, Node.descend, entry]
  rfl

theorem walkNames_in {follow : Bool} {onLink : Bool → Place → Path → List Bytes → Except Failure Found}
    (goesOn : ∀ asks here target rest, here.In root → FoundIn root (onLink asks here target rest))
    (asks : Bool) (names : List Bytes) : ∀ here : Place, here.In root →
      FoundIn root (walkNames root follow onLink asks here names) := by
  induction names with
  | nil =>
    intro here inside p found
    rw [walkNames] at found
    split at found
    · cases found
    · cases found
      exact inside
  | cons name rest ih =>
    intro here inside
    have looked := looksUp root here name
    rw [walkNames_cons]
    generalize lookUp root here name = result at looked ⊢
    cases looked with
    | closed | tooLong => exact fun _ no => by cases no
    | own => exact ih here inside
    | up => exact ih _ (parent_in inside)
    | entry at_ found => exact ih _ (child_in inside at_ found)
    | link at_ found =>
      dsimp only
      split
      · intro p same
        cases same
        exact child_in inside at_ found
      · exact goesOn asks here _ rest inside
    | absent =>
      dsimp only
      split <;> exact fun _ no => by cases no

theorem walk_in (follow : Bool) (links : Nat) : ∀ asks (here : Place) names, here.In root →
    FoundIn root (walk root follow links asks here names) := by
  induction links with
  | zero =>
    exact fun asks here names =>
      walkNames_in (fun _ _ _ _ _ _ no => by cases no) asks names here
  | succ links ih =>
    refine fun asks here names =>
      walkNames_in (fun asks here target rest inside => ih _ _ _ ?_) asks names here
    split
    · rfl
    · exact inside

end Walk

/-- A path leads to a place in the tree. -/
theorem locate_in (fs : FileSystem) (follow : Bool) (p : Path) : FoundIn fs.root (fs.locate follow p) := by
  have start : (startOf fs p).In fs.root := by
    obtain ⟨node, at_⟩ := exists_working fs
    rw [startOf_eq at_]
    split
    · rfl
    · exact at_
  rcases locate_cases p with ⟨e, refused⟩ | ⟨-, -, -, walked⟩
  · exact fun _ no => by simp [refused] at no
  · rw [walked]
    exact walk_in follow maxLinks p.endsInSlash _ p.names start

/-- What a path leads to is well named. -/
theorem resolve_wellNamed {fs : FileSystem} {follow : Bool} {p : Path} {node : Node}
    (found : fs.resolve follow p = .ok node) : node.WellNamed := by
  obtain ⟨here, rfl, located⟩ := locate_of_resolve found
  exact fs.wellNamed.descend (locate_in fs follow p here located)

end DefTally.FileSystem
