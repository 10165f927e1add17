import DefTally.FileSystem.Edit
import DefTally.Proofs.FileSystem.Alike
import DefTally.Proofs.FileSystem.Along

/-!
# The contents of files

The outline of a tree is the tree with all its files empty. Paths lead to the same places in an outline
(`locate_outline`), and a walk comes to the same entries (`entriesBelow_outline`). Putting a file in the
place of a file keeps the outline (`outline_put`), and what is read through a path that leads elsewhere
(`read_put_of_ne`).
-/

namespace DefTally.FileSystem

open DefTally.Text

namespace Node

mutual

/-- The node with all files empty. -/
def outline : Node → Node
  | file _ => file []
  | directory entries => directory (outlineAll entries)
  | link target => link target
  | special content => special content
  | shut isDirectory failure => shut isDirectory failure

/-- Entries whose nodes have all files empty. -/
def outlineAll : List (Bytes × Node) → List (Bytes × Node)
  | [] => []
  | (name, node) :: rest => (name, node.outline) :: outlineAll rest

end

@[simp] theorem kind_outline (node : Node) : node.outline.kind = node.kind := by
  cases node with
  | file | directory | link | special => rfl
  | shut isDirectory => cases isDirectory <;> rfl

theorem outlineAll_eq_map (entries : List (Bytes × Node)) :
    outlineAll entries = entries.map fun e => (e.1, e.2.outline) := by
  induction entries with
  | nil => rfl
  | cons e rest ih => rw [outlineAll, ih]; rfl

theorem lookup_outlineAll (name : Bytes) (entries : List (Bytes × Node)) :
    (outlineAll entries).lookup name = (entries.lookup name).map outline := by
  induction entries with
  | nil => rfl
  | cons e rest ih =>
    rw [outlineAll, List.lookup_cons, List.lookup_cons, ih]
    split <;> rfl

theorem descend_outline (names : List Bytes) : ∀ node : Node,
    node.outline.descend names = (node.descend names).map outline := by
  induction names with
  | nil => exact fun _ => rfl
  | cons name rest ih =>
    intro node
    cases node with
    | file | link | special | shut => rfl
    | directory entries =>
      rw [outline, descend, descend, lookup_outlineAll]
      cases entries.lookup name with
      | none => rfl
      | some child => exact ih child

/-- The names of a tree are those of its outline. -/
theorem WellNamed.outline {node : Node} (named : node.WellNamed) : node.outline.WellNamed := by
  induction named with
  | file => exact .file []
  | link target => exact .link target
  | special content => exact .special content
  | shut isDirectory failure => exact .shut isDirectory failure
  | @directory entries here inner ih =>
    have names : (outlineAll entries).map Prod.fst = entries.map Prod.fst := by
      rw [outlineAll_eq_map, List.map_map]
      rfl
    rw [Node.outline]
    refine .directory ⟨fun e inside => ?_, names ▸ here.distinct⟩ fun e inside => ?_ <;>
      rw [outlineAll_eq_map] at inside <;> obtain ⟨own, found, rfl⟩ := List.mem_map.1 inside
    · exact here.legal own found
    · exact ih own found

theorem hasDirectory_outline {node : Node} {names : List Bytes} :
    node.outline.HasDirectory names ↔ node.HasDirectory names := by
  rw [HasDirectory, HasDirectory, descend_outline, Option.map_map]
  exact iff_of_eq (congrArg (Option.map · _ = _) (funext kind_outline))

/-! ## Walks over an outline -/

theorem sortEntries_outlineAll (entries : List (Bytes × Node)) :
    sortEntries (outlineAll entries) = outlineAll (sortEntries entries) := by
  rw [outlineAll_eq_map, outlineAll_eq_map, sortEntries, sortEntries]
  symm
  exact List.map_mergeSort fun _ _ _ _ => rfl

mutual

theorem sorted_outline : ∀ node : Node, node.outline.sorted = node.sorted.outline
  | file _ => rfl
  | link _ => rfl
  | special _ => rfl
  | shut _ _ => rfl
  | directory entries => by
    rw [outline, sorted, sorted, outline, sortedAll_outlineAll entries, sortEntries_outlineAll]

theorem sortedAll_outlineAll : ∀ entries : List (Bytes × Node),
    sortedAll (outlineAll entries) = outlineAll (sortedAll entries)
  | [] => rfl
  | (name, node) :: rest => by
    rw [outlineAll, sortedAll, sortedAll, outlineAll, sorted_outline node, sortedAll_outlineAll rest]

end

/-- An entry of a trail with all files empty. -/
def outlined (e : List Bytes × Node) : List Bytes × Node := (e.1, e.2.outline)

mutual

theorem trailInside_outline (path : Path) : ∀ node : Node,
    node.outline.trailInside path = (node.trailInside path).map outlined
  | file _ => rfl
  | link _ => rfl
  | special _ => rfl
  | shut _ _ => rfl
  | directory entries => by
    rw [outline, trailInside, trailInside, trailAll_outlineAll path entries]
    split <;> rfl

theorem trailAll_outlineAll (path : Path) : ∀ entries : List (Bytes × Node),
    trailAll path (outlineAll entries) = (trailAll path entries).map outlined
  | [] => rfl
  | (name, node) :: rest => by
    rw [outlineAll, trailAll, trailAll, trailInside_outline (path.join name) node,
      trailAll_outlineAll path rest, List.map_append, List.map_cons, List.map_map, List.map_map]
    rfl

end

end Node

/-! ## Paths in an outline -/

/-- The place with all files empty. -/
def Place.outline (p : Place) : Place := ⟨p.names, p.node.outline⟩

/-- Where a path leads, with all files empty. -/
def Found.outline : Found → Found
  | place p => place p.outline
  | missing directory name => missing directory name

/-- The file system with all files empty. -/
def outline (fs : FileSystem) : FileSystem :=
  ⟨fs.root.outline, fs.working, fs.wellNamed.outline, Node.hasDirectory_outline.2 fs.hasWorking⟩

/-- Paths do not tell a tree and its outline apart. -/
theorem likeness_outline : Likeness fun a b => b = a.outline := by
  rintro a _ rfl
  cases a with
  | file content => exact .file content []
  | link target => exact .link target
  | special content => exact .special content
  | shut isDirectory failure => exact .shut isDirectory failure
  | directory entries =>
    refine .directory fun name => ?_
    rw [Node.lookup_outlineAll]
    cases entries.lookup name with
    | none => exact .none
    | some child => exact .some rfl

/-- Paths lead to the same places in an outline. -/
theorem locate_outline (fs : FileSystem) (follow : Bool) (p : Path) :
    fs.outline.locate follow p = (fs.locate follow p).map Found.outline := by
  have working : fs.working = fs.outline.working := rfl
  have found : FoundAlike (fun a b => b = a.outline) (fs.locate follow p)
      (fs.outline.locate follow p) := locate_alike likeness_outline rfl working follow p
  generalize fs.locate follow p = first, fs.outline.locate follow p = second at found ⊢
  cases found with
  | failure | missing => rfl
  | place names alike =>
    subst alike
    rfl

theorem resolve_outline (fs : FileSystem) (follow : Bool) (p : Path) :
    fs.outline.resolve follow p = (fs.resolve follow p).map Node.outline := by
  rw [resolve, resolve, locate_outline]
  rcases fs.locate follow p with e | (here | ⟨directory, name⟩) <;> rfl

/-- What paths lead to with one outline: the same, or places with the same names and outlines. -/
theorem eq_or_places_of_outline {a b : Except Failure Found}
    (same : a.map Found.outline = b.map Found.outline) :
    a = b ∨ ∃ p q, a = .ok (.place p) ∧ b = .ok (.place q) ∧ p.outline = q.outline := by
  rcases a with e | (p | ⟨directory, name⟩) <;> rcases b with e' | (q | ⟨directory', name'⟩) <;>
    simp only [Except.map, Found.outline, reduceCtorEq, Except.error.injEq, Except.ok.injEq,
      Found.place.injEq, Found.missing.injEq] at same
  · exact .inl (by rw [same])
  · exact .inr ⟨p, q, rfl, rfl, same⟩
  · exact .inl (by rw [same.1, same.2])

theorem isDirectory_outline (fs : FileSystem) (p : Path) :
    fs.outline.isDirectory p = fs.isDirectory p := by
  rw [isDirectory, isDirectory, resolve_outline]
  cases fs.resolve true p with
  | error e => rfl
  | ok node => simp only [Except.map, Node.kind_outline]

/-- A walk comes to the outlines of the same entries in an outline. -/
theorem entriesBelow_outline (fs : FileSystem) (root : Path) :
    fs.outline.entriesBelow root = (fs.entriesBelow root).map Node.outlined := by
  rw [entriesBelow, entriesBelow, resolve_outline]
  cases fs.resolve true root with
  | error e => rfl
  | ok top => simp only [Except.map, Node.sorted_outline, Node.trailInside_outline]

/-! ## A file in the place of a file -/

section Alter

variable {name : Bytes} {change : Option Node → Option Node} {entries : List (Bytes × Node)}
  {child child' : Node}

/-- An entry that is changed stays between the others, and is the first of its name. -/
theorem alterEntry_eq (entry : entries.lookup name = some child)
    (changed : change (some child) = some child') :
    ∃ before after, entries = before ++ (name, child) :: after ∧ before.lookup name = none ∧
      Node.alterEntry name change entries = before ++ (name, child') :: after := by
  induction entries with
  | nil => cases entry
  | cons e rest ih =>
    obtain ⟨n, node⟩ := e
    rw [List.lookup_cons] at entry
    rw [Node.alterEntry]
    by_cases own : n = name
    · subst own
      rw [beq_self_eq_true] at entry
      cases entry
      exact ⟨[], rest, rfl, rfl, by rw [if_pos rfl, changed]; rfl⟩
    · have apart : (name == n) = false := beq_false_of_ne (Ne.symm own)
      rw [apart] at entry
      obtain ⟨before, after, rfl, first, altered⟩ := ih entry
      refine ⟨(n, node) :: before, after, rfl, ?_, by rw [if_neg own, altered]; rfl⟩
      rw [List.lookup_cons, apart]
      exact first

theorem lookup_alterEntry_self (entry : entries.lookup name = some child)
    (changed : change (some child) = some child') :
    (Node.alterEntry name change entries).lookup name = some child' := by
  obtain ⟨before, after, -, first, altered⟩ := alterEntry_eq entry changed
  rw [altered, List.lookup_append, first, Option.none_or, List.lookup_cons_self]

theorem lookup_alterEntry_of_ne {other : Bytes} (differs : other ≠ name)
    (entry : entries.lookup name = some child) (changed : change (some child) = some child') :
    (Node.alterEntry name change entries).lookup other = entries.lookup other := by
  obtain ⟨before, after, rfl, -, altered⟩ := alterEntry_eq entry changed
  rw [altered, List.lookup_append, List.lookup_append, List.lookup_cons, List.lookup_cons,
    beq_false_of_ne differs]

theorem outlineAll_alterEntry (entry : entries.lookup name = some child)
    (changed : change (some child) = some child') (same : child'.outline = child.outline) :
    Node.outlineAll (Node.alterEntry name change entries) = Node.outlineAll entries := by
  obtain ⟨before, after, rfl, -, altered⟩ := alterEntry_eq entry changed
  simp only [altered, Node.outlineAll_eq_map, List.map_append, List.map_cons, same]

end Alter

/-- A node put below a directory is put below the child that the first name leads to. -/
theorem alter_cons {entries : List (Bytes × Node)} (name : Bytes) (rest : List Bytes) (new : Node) :
    ∃ change, (Node.directory entries).alter (fun _ => some new) (name :: rest) =
        .directory (Node.alterEntry name change entries) ∧
      ∀ child, change (some child) = some (child.alter (fun _ => some new) rest) := by
  refine ⟨_, Node.alter.eq_2 _ _ _ _, fun child => ?_⟩
  cases rest <;> rfl

variable {old new : Bytes}

/-- A tree in which a file was put in the place of a file has the same outline. -/
theorem outline_alter {place : List Bytes} : ∀ {root : Node}, root.descend place = some (.file old) →
    (root.alter (fun _ => some (.file new)) place).outline = root.outline := by
  induction place with
  | nil =>
    intro root at_
    cases at_
    rfl
  | cons name rest ih =>
    intro root at_
    obtain ⟨entries, child, rfl, entry, below⟩ := Node.descend_cons at_
    obtain ⟨change, altered, changed⟩ := alter_cons name rest (.file new)
    rw [altered, Node.outline, Node.outline, outlineAll_alterEntry entry (changed child) (ih below)]

/-- In a tree in which a file was put in the place of a file that place leads to it. -/
theorem descend_alter_self {place : List Bytes} : ∀ {root : Node},
    root.descend place = some (.file old) →
      (root.alter (fun _ => some (.file new)) place).descend place = some (.file new) := by
  induction place with
  | nil => exact fun _ => rfl
  | cons name rest ih =>
    intro root at_
    obtain ⟨entries, child, rfl, entry, below⟩ := Node.descend_cons at_
    obtain ⟨change, altered, changed⟩ := alter_cons name rest (.file new)
    rw [altered, Node.descend, lookup_alterEntry_self entry (changed child)]
    exact ih below

/-- The other files of a tree in which a file was put in the place of a file are as they were. -/
theorem descend_alter_of_ne {place : List Bytes} {content : Bytes} :
    ∀ {root : Node} {names : List Bytes}, root.descend place = some (.file old) →
      root.descend names = some (.file content) → names ≠ place →
      (root.alter (fun _ => some (.file new)) place).descend names = some (.file content) := by
  induction place with
  | nil =>
    intro root names at_ other differs
    cases at_
    cases names with
    | nil => exact absurd rfl differs
    | cons name rest => cases other
  | cons name rest ih =>
    intro root names at_ other differs
    obtain ⟨entries, child, rfl, entry, below⟩ := Node.descend_cons at_
    obtain ⟨change, altered, changed⟩ := alter_cons name rest (.file new)
    cases names with
    | nil => cases other
    | cons n more =>
      rw [altered, Node.descend]
      rw [Node.descend] at other
      by_cases same : n = name
      · subst same
        rw [entry] at other
        rw [lookup_alterEntry_self entry (changed child)]
        exact ih below other fun same => differs (by rw [same])
      · rwa [lookup_alterEntry_of_ne same entry (changed child)]

section Put

variable {fs : FileSystem} {place : List Bytes}

/-- A file can be put in the place of a file. -/
theorem root_put (at_ : fs.root.descend place = some (.file old)) :
    (fs.put place (.file new)).root = fs.root.alter (fun _ => some (.file new)) place := by
  have same : (fs.root.alter (fun _ => some (.file new)) place).outline = fs.root.outline :=
    outline_alter at_
  have legal := fs.wellNamed.names at_
  have there : (fs.root.alter (fun _ => some (.file new)) place).HasDirectory fs.working := by
    rw [← Node.hasDirectory_outline, same, Node.hasDirectory_outline]
    exact fs.hasWorking
  have named : ∀ node ∈ some (Node.file new), node.WellNamed := fun _ own =>
    Option.mem_some_iff.1 own ▸ .file new
  rw [put, set, dif_pos ⟨legal, named, there⟩]

theorem working_put (names : List Bytes) (node : Node) : (fs.put names node).working = fs.working := by
  rw [put, set]
  split <;> rfl

theorem outline_put (at_ : fs.root.descend place = some (.file old)) :
    (fs.put place (.file new)).outline = fs.outline := by
  ext1
  · exact (congrArg Node.outline (root_put at_)).trans (outline_alter at_)
  · exact working_put place _

/-- What is read through a path that leads elsewhere stays the same when a file is put in the place of
a file. -/
theorem read_put_of_ne (at_ : fs.root.descend place = some (.file old)) {path : Path}
    (elsewhere : ∀ p, fs.locate true path = .ok (.place p) → p.names ≠ place) :
    (fs.put place (.file new)).read path = fs.read path := by
  have same : (fs.put place (.file new)).outline = fs.outline := outline_put at_
  have alike := locate_outline fs true path
  rw [← same, locate_outline] at alike
  rw [read, read, resolve, resolve]
  rcases eq_or_places_of_outline alike with same | ⟨p, q, found', found, same⟩
  · rw [same]
  · obtain ⟨names, nodes⟩ := Place.mk.inj same
    have at_p := locate_in _ true path p found'
    have at_q := locate_in fs true path q found
    rw [found, found']
    rw [Place.In, names] at at_p
    rw [Place.In] at at_q
    cases here : q.node with
    | file content =>
      rw [here] at at_q
      have kept : (fs.put place (.file new)).root.descend q.names = some (.file content) := by
        rw [root_put at_]
        exact descend_alter_of_ne at_ at_q (elsewhere q found)
      simp only [here, Option.some.inj (at_p.symm.trans kept)]
    | directory | link | special | shut =>
      -- Only files lose anything in an outline.
      simp only [here, Node.outline] at nodes ⊢
      cases here' : p.node <;> rw [here'] at nodes <;> cases nodes <;> rfl

end Put

end DefTally.FileSystem
