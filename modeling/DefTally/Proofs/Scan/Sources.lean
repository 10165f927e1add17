import DefTally.Scan
import DefTally.Proofs.FileSystem.Places
import DefTally.Proofs.FileSystem.Visits
import DefTally.Proofs.LastEntry

/-!
# What a scan finds

`SourceBelow` says which names lead to a source file below a root, without walking. The entries
that a scan puts into its tally are those of these files, in the order of their names
(`scan_eq_ofList`), so the tally maps a key to the count of the last of the files that have it
(`scan_get?_eq_some_iff`).
-/

namespace DefTally

open DefTally.FileSystem DefTally.Text

namespace FileSystem

/-- Names lead from a root to a source file: from the node that the root leads to, through real
directories that can be listed, to a file or to a link that leads to no directory, and the last
of them ends as the name of a source file does. -/
def SourceBelow (fs : FileSystem) (root : Path) (names : List Bytes) : Prop :=
  ∃ top node name, fs.resolve true root = .ok top ∧ top.Leads root names node ∧
    names.getLast? = some name ∧ sourceSuffix <:+ name ∧
    (node.kind = .file ∨ node.kind = .link ∧
      ∀ target, fs.resolve true (root.joinAll names) = .ok target → target.kind ≠ .directory)

/-- The key of the file that names lead to: the names with slashes between them, with a
replacement character for what is no character. -/
def keyOf (names : List Bytes) : String := String.ofList (Utf8.decodeLossy (Path.chain names))

/-- The entry of a tally for the file that names lead to. -/
def entryOf (fs : FileSystem) (root : Path) (names : List Bytes) : String × Nat :=
  (keyOf names, fs.count (root.joinAll names))

theorem isDirectory_eq_false_iff {fs : FileSystem} {p : Path} :
    fs.isDirectory p = false ↔ ∀ node, fs.resolve true p = .ok node → node.kind ≠ .directory := by
  rw [isDirectory]
  cases fs.resolve true p <;> simp

theorem hasSourceName_joinAll {root : Path} {names : List Bytes} {name : Bytes}
    (last : names.getLast? = some name) (legal : ∀ name ∈ names, Path.Legal name) :
    hasSourceName (root.joinAll names) = true ↔ sourceSuffix <:+ name := by
  rw [hasSourceName, Path.fileName?_joinAll root last legal, Option.getD_some]
  exact List.isSuffixOf_iff_suffix

/-- What makes an entry below a root a source file, by the names that lead to it. -/
theorem isSource_joinAll {fs : FileSystem} {root : Path} {names : List Bytes} {name : Bytes}
    {kind : Kind} (last : names.getLast? = some name) (legal : ∀ name ∈ names, Path.Legal name) :
    fs.isSource (root.joinAll names) kind = true ↔ sourceSuffix <:+ name ∧ (kind = .file ∨
      kind = .link ∧
        ∀ target, fs.resolve true (root.joinAll names) = .ok target → target.kind ≠ .directory) := by
  rw [isSource, Bool.and_eq_true, hasSourceName_joinAll last legal, ← isDirectory_eq_false_iff]
  simp

/-- The count of a file is what a scan puts into its tally for it. -/
theorem entry?_source (fs : FileSystem) (root path : Path) :
    Finding.entry? root (.source path (fs.tryCount path)) =
      some (root.relativeKey path, fs.count path) := by
  rw [count]
  cases fs.tryCount path <;> rfl

/-- The entry that a scan makes of an entry of a walk, if it makes one. -/
def tallied? (fs : FileSystem) (root : Path) (e : Path × Kind) : Option (String × Nat) :=
  if fs.isSource e.1 e.2 then some (root.relativeKey e.1, fs.count e.1) else none

theorem tallied_visits (fs : FileSystem) (root : Path) (visits : List Visit) :
    (visits.filterMap fs.finding?).filterMap (Finding.entry? root) =
      (visits.filterMap Visit.entry?).filterMap (fs.tallied? root) := by
  rw [List.filterMap_filterMap, List.filterMap_filterMap]
  congr 1
  funext visit
  cases visit with
  | unreadable path failure => rfl
  | entry path kind =>
    simp only [finding?, Visit.entry?, Option.bind_some, tallied?]
    split
    · exact entry?_source fs root path
    · rfl

/-- The names that lead to the source files below a root, in the order of a walk. -/
def sourceNames (fs : FileSystem) (root : Path) : List (List Bytes) :=
  ((fs.entriesBelow root).filter fun e => fs.isSource (root.joinAll e.1) e.2.kind).map Prod.fst

/-- A walk comes to what names lead to from the node that its root leads to, with all directories in
order. -/
theorem mem_entriesBelow_iff {fs : FileSystem} {root : Path} {names : List Bytes} {found : Node} :
    (names, found) ∈ fs.entriesBelow root ↔ ∃ top node, fs.resolve true root = .ok top ∧
      top.Leads root names node ∧ node.sorted = found ∧ names ≠ [] := by
  rw [entriesBelow]
  cases lead : fs.resolve true root with
  | error e => simp
  | ok top =>
    rw [Node.mem_trailInside_iff, Node.leads_sorted_iff]
    constructor
    · rintro ⟨filled, node, leads, same⟩
      exact ⟨top, node, rfl, leads, same, filled⟩
    · rintro ⟨_, node, same, leads, ordered, filled⟩
      cases same
      exact ⟨filled, node, leads, ordered⟩

section Sources

variable {fs : FileSystem} {root : Path}

/-- The names of what a walk comes to are some, and legal. -/
theorem legal_of_mem_entriesBelow {e : List Bytes × Node} (inside : e ∈ fs.entriesBelow root) :
    e.1 ≠ [] ∧ ∀ name ∈ e.1, Path.Legal name := by
  obtain ⟨top, node, found, leads, -, filled⟩ :=
    mem_entriesBelow_iff.1 (show (e.1, e.2) ∈ _ from inside)
  exact ⟨filled, leads.legal (resolve_wellNamed found)⟩

/-- A scan's tally is made of the entries of the source files in the order of a walk. -/
theorem scan_eq_ofList (fs : FileSystem) (root : Path) :
    fs.scan root = .ofList ((fs.sourceNames root).map (fs.entryOf root)) := by
  rw [scan, tallyOf, findings, tallied_visits, entries_visitsBelow, sourceNames, List.map_map]
  have legal : ∀ e ∈ fs.entriesBelow root, e.1 ≠ [] ∧ ∀ name ∈ e.1, Path.Legal name :=
    fun e inside => legal_of_mem_entriesBelow inside
  congr 1
  generalize fs.entriesBelow root = entries at legal
  induction entries with
  | nil => rfl
  | cons e rest ih =>
    have rest' := ih fun e h => legal e (List.mem_cons_of_mem _ h)
    obtain ⟨filled, own⟩ := legal e List.mem_cons_self
    have tallied : fs.tallied? root (Node.located root e) =
        if fs.isSource (root.joinAll e.1) e.2.kind then some (fs.entryOf root e.1) else none := by
      rw [tallied?, Node.located, Path.relativeKey_joinAll root filled own]
      rfl
    rw [List.map_cons, List.filterMap_cons, tallied, List.filter_cons]
    split <;> simp_all

theorem mem_sourceNames_iff {names : List Bytes} :
    names ∈ fs.sourceNames root ↔ fs.SourceBelow root names := by
  rw [sourceNames, List.mem_map]
  constructor
  · rintro ⟨⟨names, found⟩, inside, rfl⟩
    obtain ⟨entry, source⟩ := List.mem_filter.1 inside
    obtain ⟨top, node, lead, leads, rfl, filled⟩ := mem_entriesBelow_iff.1 entry
    have last := List.getLast?_eq_some_getLast filled
    have legal := leads.legal (resolve_wellNamed lead)
    rw [Node.kind_sorted] at source
    obtain ⟨suffix, leaf⟩ := (isSource_joinAll last legal).1 source
    exact ⟨top, node, _, lead, leads, last, suffix, leaf⟩
  · rintro ⟨top, node, name, lead, leads, last, suffix, leaf⟩
    have legal := leads.legal (resolve_wellNamed lead)
    have filled : names ≠ [] := by rintro rfl; cases last
    refine ⟨(names, node.sorted), List.mem_filter.2 ⟨?_, ?_⟩, rfl⟩
    · exact mem_entriesBelow_iff.2 ⟨top, node, lead, leads, rfl, filled⟩
    · rw [Node.kind_sorted]
      exact (isSource_joinAll last legal).2 ⟨suffix, leaf⟩

/-- A walk comes to the entries below a root in the order of their names. -/
theorem entriesBelow_ascend (fs : FileSystem) (root : Path) :
    Node.TrailAscends (fs.entriesBelow root) := by
  rw [entriesBelow]
  split
  · next top found =>
    exact (Node.trail_ascending (resolve_wellNamed found).sorted_ascend root).tail
  · exact .nil

/-- A scan comes to the source files in the order of their names. -/
theorem sourceNames_ascend (fs : FileSystem) (root : Path) :
    (fs.sourceNames root).Pairwise (· < ·) :=
  List.pairwise_map.2 ((entriesBelow_ascend fs root).filter _)

end Sources

/-- A scan is exact. Its tally has a key just where names lead to a source file with that key, and the
value is the count of the last of these files: the names are compared in the order of a walk, which
comes to a directory before its contents and takes the entries of a directory by the bytes of their
names. -/
theorem scan_get?_eq_some_iff (fs : FileSystem) (root : Path) (key : String) (n : Nat) :
    (fs.scan root).get? key = some n ↔
      ∃ names, fs.SourceBelow root names ∧ keyOf names = key ∧
        fs.count (root.joinAll names) = n ∧
        ∀ other, fs.SourceBelow root other → keyOf other = key → other ≤ names := by
  have ascend := sourceNames_ascend fs root
  simp only [scan_eq_ofList, Dictionary.get?_ofList_eq_some_iff, ← mem_sourceNames_iff]
  generalize fs.sourceNames root = sources at ascend
  constructor
  · rintro ⟨before, after, split, apart⟩
    obtain ⟨earlier, rest, rfl, -, split⟩ := List.map_eq_append_iff.1 split
    obtain ⟨names, later, rfl, same, rfl⟩ := List.map_eq_cons_iff.1 split
    cases same
    refine ⟨names, by simp, rfl, rfl, fun other inside same => ?_⟩
    rcases List.mem_append.1 inside with inside | inside
    · exact List.le_of_lt ((List.pairwise_append.1 ascend).2.2 _ inside _ List.mem_cons_self)
    rcases List.mem_cons.1 inside with rfl | inside
    · exact List.le_refl _
    · exact absurd same (apart _ (List.mem_map_of_mem inside))
  · rintro ⟨names, inside, rfl, rfl, last⟩
    obtain ⟨earlier, later, rfl⟩ := List.append_of_mem inside
    refine ⟨earlier.map (fs.entryOf root), later.map (fs.entryOf root), by simp [entryOf], ?_⟩
    intro e found same
    obtain ⟨other, isLater, rfl⟩ := List.mem_map.1 found
    have after : names < other :=
      (List.pairwise_cons.1 (List.pairwise_append.1 ascend).2.1).1 _ isLater
    exact List.not_lt.2 (last other (by simp [isLater]) same) after

/-- A directory with a file and a dangling link whose names are shown alike, and with a link to
the directory itself. -/
def shownAlike : FileSystem where
  root := .directory [([0xff, 0x2e, 0x70, 0x79], .file [0]), ([0xe9, 0x2e, 0x70, 0x79], .link ⟨[0x78]⟩),
    (sourceSuffix, .link ⟨Path.dot⟩)]
  working := []
  wellNamed := by decide
  hasWorking := by decide

/-- Of the two files that are shown alike, the one whose name is greater supplies the value. -/
theorem scan_shownAlike : (shownAlike.scan ⟨Path.dot⟩).get? "\ufffd.py" = some 0 := by
  refine (scan_get?_eq_some_iff shownAlike ⟨Path.dot⟩ _ 0).2
    ⟨[[0xff, 0x2e, 0x70, 0x79]], ?_, by decide, by rfl, ?_⟩
  · exact ⟨_, _, _, rfl, .through (by decide) List.mem_cons_self (.here _ _), rfl, by decide, .inl rfl⟩
  · rintro other ⟨top, node, name, found, leads, -, -, -⟩ alike
    cases found
    cases leads with
    | here => exact absurd alike (by decide)
    | through _ entry further =>
      simp only [List.mem_cons, List.not_mem_nil, or_false, Prod.mk.injEq] at entry
      rcases entry with ⟨rfl, rfl⟩ | ⟨rfl, rfl⟩ | ⟨rfl, rfl⟩ <;> cases further
      · exact List.le_refl _
      · decide
      · exact absurd alike (by decide)

end FileSystem

end DefTally
