import DefTally.Path

/-!
# Trees of files

A `Node` is a file, a directory with all that is in it, or something else that a directory can
have an entry for. The entries of a directory come in the order in which the directory lists
them, which means nothing. A tree is well named if all names in it are legal and no directory
lists a name twice, which can be decided and stays so when what is at a place in the tree is
changed (`Node.WellNamed.alter`).
-/

namespace DefTally.FileSystem

open DefTally.Text

/-- Why a file or directory could not be reached or read. -/
inductive Failure where
  | notFound
  | permissionDenied
  | notDirectory
  | isDirectory
  | nameTooLong
  | linkLoop
  | embeddedNul
  /-- Any other reason, in words. -/
  | other (text : String)
  deriving DecidableEq, Repr

/-- The words for a failure. -/
def Failure.message : Failure → String
  | notFound => "No such file or directory (os error 2)"
  | permissionDenied => "Permission denied (os error 13)"
  | notDirectory => "Not a directory (os error 20)"
  | isDirectory => "Is a directory (os error 21)"
  | nameTooLong => "File name too long (os error 36)"
  | linkLoop => "Too many levels of symbolic links (os error 40)"
  | embeddedNul => "file name contained an unexpected NUL byte"
  | other text => text

/-- A node of a file system. -/
inductive Node where
  | file (content : Bytes)
  | directory (entries : List (Bytes × Node))
  | link (target : Path)
  /-- A pipe or a device, with what is read of it up to its end. -/
  | special (content : Bytes)
  /-- A file or a directory that cannot be opened, and why not. What it holds does not show. -/
  | shut (isDirectory : Bool) (failure : Failure)

/-- What a node is. -/
inductive Kind where
  | file
  | directory
  | link
  | special
  deriving DecidableEq, Repr

namespace Node

/-- What the node is. -/
def kind : Node → Kind
  | file _ => .file
  | directory _ => .directory
  | link _ => .link
  | special _ => .special
  | shut false _ => .file
  | shut true _ => .directory

theorem kind_eq_link_iff {n : Node} : n.kind = .link ↔ ∃ target, n = link target := by
  constructor
  · intro isLink
    cases n with
    | link target => exact ⟨target, rfl⟩
    | file | directory | special => cases isLink
    | shut isDirectory => cases isDirectory <;> cases isLink
  · rintro ⟨target, rfl⟩
    rfl

/-- The node that names lead to, without following links. -/
def descend (n : Node) : List Bytes → Option Node
  | [] => some n
  | name :: rest =>
    match n with
    | directory entries =>
      match entries.lookup name with
      | some child => child.descend rest
      | none => none
    | _ => none

/-- Names lead to a directory. -/
def HasDirectory (n : Node) (names : List Bytes) : Prop :=
  (n.descend names).map kind = some .directory

instance (n : Node) (names : List Bytes) : Decidable (n.HasDirectory names) :=
  inferInstanceAs (Decidable (_ = _))

theorem HasDirectory.isSome {n : Node} {names : List Bytes} (there : n.HasDirectory names) :
    (n.descend names).isSome := by
  rw [← Option.isSome_map, there]
  rfl

/-! ## Names -/

/-- The entries of every directory of a tree are as `P` says. -/
inductive Throughout (P : List (Bytes × Node) → Prop) : Node → Prop where
  | file (content : Bytes) : Throughout P (file content)
  | directory {entries : List (Bytes × Node)} (here : P entries)
      (inner : ∀ e ∈ entries, Throughout P e.2) : Throughout P (directory entries)
  | link (target : Path) : Throughout P (link target)
  | special (content : Bytes) : Throughout P (special content)
  | shut (isDirectory : Bool) (failure : Failure) : Throughout P (shut isDirectory failure)

/-- The entries of a directory have names that are legal and differ. -/
structure ProperNames (entries : List (Bytes × Node)) : Prop where
  legal : ∀ e ∈ entries, Path.Legal e.1
  distinct : (entries.map Prod.fst).Nodup

/-- All directories of a tree have proper names. -/
abbrev WellNamed : Node → Prop := Throughout ProperNames

theorem throughout_directory_iff {P : List (Bytes × Node) → Prop} {entries : List (Bytes × Node)} :
    (directory entries).Throughout P ↔ P entries ∧ ∀ e ∈ entries, e.2.Throughout P := by
  constructor
  · intro throughout
    cases throughout with
    | directory here inner => exact ⟨here, inner⟩
  · exact fun ⟨here, inner⟩ => .directory here inner

mutual

/-- Decides whether the entries of every directory of a tree are as `P` says. -/
def decideThroughout (P : List (Bytes × Node) → Prop) [DecidablePred P] :
    (node : Node) → Decidable (node.Throughout P)
  | file content => isTrue (.file content)
  | directory entries =>
    haveI := decideThroughoutAll P entries
    decidable_of_iff _ throughout_directory_iff.symm
  | link target => isTrue (.link target)
  | special content => isTrue (.special content)
  | shut isDirectory failure => isTrue (.shut isDirectory failure)

/-- Decides the same of all trees that are listed. -/
def decideThroughoutAll (P : List (Bytes × Node) → Prop) [DecidablePred P] :
    (entries : List (Bytes × Node)) → Decidable (∀ e ∈ entries, e.2.Throughout P)
  | [] => isTrue fun _ h => absurd h List.not_mem_nil
  | (_, node) :: rest =>
    haveI := decideThroughout P node
    haveI := decideThroughoutAll P rest
    decidable_of_iff _ List.forall_mem_cons.symm

end

instance (P : List (Bytes × Node) → Prop) [DecidablePred P] : DecidablePred (Throughout P) :=
  decideThroughout P

instance : DecidablePred ProperNames := fun entries =>
  decidable_of_iff ((∀ e ∈ entries, Path.Legal e.1) ∧ (entries.map Prod.fst).Nodup)
    ⟨fun ⟨legal, distinct⟩ => ⟨legal, distinct⟩, fun proper => ⟨proper.legal, proper.distinct⟩⟩

/-! ## Changing what is at a place -/

/-- The entries of a directory with one of them changed: a new one goes to the end. -/
def alterEntry (name : Bytes) (change : Option Node → Option Node) :
    List (Bytes × Node) → List (Bytes × Node)
  | [] => match change none with
    | some node => [(name, node)]
    | none => []
  | (n, node) :: rest =>
    if n = name then
      match change (some node) with
      | some node => (n, node) :: rest
      | none => rest
    else (n, node) :: alterEntry name change rest

/-- Changes the node that names lead to, or makes one there. -/
def alter (change : Option Node → Option Node) : List Bytes → Node → Node
  | [], n => (change (some n)).getD n
  | name :: rest, n =>
    match n with
    | directory entries =>
      directory (alterEntry name (fun old => match rest with
        | [] => change old
        | _ :: _ => old.map (alter change rest)) entries)
    | n => n

section Alter

variable {name : Bytes} {change : Option Node → Option Node}

theorem mem_alterEntry {entries : List (Bytes × Node)} {e : Bytes × Node}
    (h : e ∈ alterEntry name change entries) :
    e ∈ entries ∨ e.1 = name ∧ ∃ old, change old = some e.2 ∧
      ∀ node, old = some node → (name, node) ∈ entries := by
  induction entries with
  | nil =>
    rw [alterEntry] at h
    split at h
    · next node made =>
      rw [List.mem_singleton] at h
      exact .inr ⟨by rw [h], none, by rw [h, made], fun _ no => by cases no⟩
    · cases h
  | cons entry rest ih =>
    obtain ⟨n, node⟩ := entry
    rw [alterEntry] at h
    split at h
    · next same =>
      subst same
      split at h
      · next made =>
        rcases List.mem_cons.1 h with rfl | h
        · exact .inr ⟨rfl, some node, made, fun _ own => Option.some.inj own ▸ List.mem_cons_self⟩
        · exact .inl (List.mem_cons_of_mem _ h)
      · exact .inl (List.mem_cons_of_mem _ h)
    · rcases List.mem_cons.1 h with rfl | h
      · exact .inl List.mem_cons_self
      · rcases ih h with h | ⟨own, old, made, from_⟩
        · exact .inl (List.mem_cons_of_mem _ h)
        · exact .inr ⟨own, old, made, fun node same => List.mem_cons_of_mem _ (from_ node same)⟩

theorem alterEntry_distinct {entries : List (Bytes × Node)}
    (distinct : (entries.map Prod.fst).Nodup) :
    ((alterEntry name change entries).map Prod.fst).Nodup := by
  induction entries with
  | nil =>
    rw [alterEntry]
    split <;> simp
  | cons entry rest ih =>
    obtain ⟨n, node⟩ := entry
    obtain ⟨apart, distinct⟩ := List.nodup_cons.1 distinct
    rw [alterEntry]
    split
    · split
      · exact List.nodup_cons.2 ⟨apart, distinct⟩
      · exact distinct
    · next other =>
      refine List.nodup_cons.2 ⟨fun inside => ?_, ih distinct⟩
      obtain ⟨e, found, same⟩ := List.mem_map.1 inside
      rcases mem_alterEntry found with h | ⟨own, -⟩
      · exact apart (List.mem_map.2 ⟨e, h, same⟩)
      · exact other (same.symm.trans own)

/-- Changing what names lead to keeps a tree well named, if the change does so and the last of
the names is legal. -/
theorem WellNamed.alter
    (keeps : ∀ old new, (∀ node, old = some node → node.WellNamed) → change old = some new →
      new.WellNamed) (names : List Bytes) :
    ∀ node : Node, node.WellNamed → (∀ name ∈ names, Path.Legal name) →
      (node.alter change names).WellNamed := by
  induction names with
  | nil =>
    intro node named _
    rw [Node.alter]
    cases made : change (some node) with
    | none => exact named
    | some new => exact keeps _ new (fun _ own => Option.some.inj own ▸ named) made
  | cons name rest ih =>
    intro node named legal
    cases named with
    | file content => exact .file content
    | link target => exact .link target
    | special content => exact .special content
    | shut isDirectory failure => exact .shut isDirectory failure
    | @directory entries here inner =>
      have later : ∀ n ∈ rest, Path.Legal n := fun n h => legal n (List.mem_cons_of_mem _ h)
      rw [Node.alter]
      refine .directory ⟨fun e h => ?_, alterEntry_distinct here.distinct⟩ fun e h => ?_
      · rcases mem_alterEntry h with h | ⟨own, -⟩
        · exact here.legal e h
        · exact own ▸ legal name List.mem_cons_self
      · rcases mem_alterEntry h with h | ⟨-, old, made, from_⟩
        · exact inner e h
        · have oldNamed : ∀ node, old = some node → node.WellNamed :=
            fun node same => inner _ (from_ node same)
          cases rest with
          | nil => exact keeps old _ oldNamed made
          | cons next further =>
            obtain ⟨node, same, altered⟩ := Option.map_eq_some_iff.1 made
            exact altered ▸ ih node (oldNamed node same) later

end Alter

end Node

end DefTally.FileSystem
