import DefTally.FileSystem.Walk
import DefTally.Proofs.Path.Joined

/-!
# The entries below a node

`Node.Leads` says which nodes names lead to from a node, through real directories that can be
listed. `Node.trail` has the same nodes in the order of a walk, each with the names that lead to
it: it lists exactly them (`mem_trail_iff`), and on a tree whose directories are in order their
names ascend (`trail_ascending`). A walk visits what its trail lists, and says of a directory that
it cannot be listed right after its visit (`visitsInside_eq`).
-/

namespace DefTally.FileSystem

open DefTally.Text

namespace Node

/-- The names of entries ascend. -/
abbrev NamesAscend (entries : List (Bytes × Node)) : Prop := entries.Pairwise fun a b => a.1 < b.1

/-- Names lead from a node at a path to a node: each is in a directory that can be opened and
listed by its own path, and none is in a link. -/
inductive Leads : Path → Node → List Bytes → Node → Prop where
  | here (path : Path) (node : Node) : Leads path node [] node
  | through {path : Path} {entries : List (Bytes × Node)} {name : Bytes} {child node : Node}
      {names : List Bytes} (listed : path.text.length ≤ maxPath) (entry : (name, child) ∈ entries)
      (further : Leads (path.join name) child names node) :
      Leads path (directory entries) (name :: names) node

/-! ## Directories in order -/

theorem sortedAll_eq_map (entries : List (Bytes × Node)) :
    sortedAll entries = entries.map fun e => (e.1, e.2.sorted) := by
  induction entries with
  | nil => rfl
  | cons e rest ih => rw [sortedAll, ih]; rfl

/-- Putting directories in order keeps the entries and puts their own directories in order. -/
theorem mem_sortEntries_sortedAll {entries : List (Bytes × Node)} {name : Bytes} {node : Node} :
    (name, node) ∈ sortEntries (sortedAll entries) ↔
      ∃ child, (name, child) ∈ entries ∧ child.sorted = node := by
  rw [sortEntries, List.mem_mergeSort, sortedAll_eq_map, List.mem_map]
  constructor
  · rintro ⟨⟨_, child⟩, inside, same⟩
    cases same
    exact ⟨child, inside, rfl⟩
  · rintro ⟨child, inside, rfl⟩
    exact ⟨(name, child), inside, rfl⟩

@[simp] theorem kind_sorted (node : Node) : node.sorted.kind = node.kind := by
  cases node <;> rfl

/-- Names lead to the same entries when directories are put in order. -/
theorem leads_sorted_iff {path : Path} {node found : Node} {names : List Bytes} :
    Leads path node.sorted names found ↔ ∃ entry, Leads path node names entry ∧ entry.sorted = found := by
  constructor
  · intro leads
    generalize same : node.sorted = top at leads
    induction leads generalizing node with
    | here => exact ⟨node, .here _ _, same⟩
    | through listed entry _ ih =>
      cases node with
      | directory entries =>
        cases same
        obtain ⟨child, inside, sorted⟩ := mem_sortEntries_sortedAll.1 entry
        obtain ⟨last, leads, ends⟩ := ih sorted
        exact ⟨last, .through listed inside leads, ends⟩
      | file | link | special | shut => cases same
  · rintro ⟨entry, leads, rfl⟩
    induction leads with
    | here => exact .here _ _
    | through listed entry _ ih =>
      exact .through listed (mem_sortEntries_sortedAll.2 ⟨_, entry, rfl⟩) ih

/-- The order of a sort by name, on names. -/
theorem names_sortEntries_ascend {entries : List (Bytes × Node)}
    (distinct : (entries.map Prod.fst).Nodup) : NamesAscend (sortEntries entries) := by
  have inOrder : (sortEntries entries).Pairwise fun a b => a.1 ≤ b.1 := by
    refine (List.pairwise_mergeSort (fun a b c hab hbc => ?_) (fun a b => ?_) entries).imp ?_
    · simp only [Bool.not_eq_true', decide_eq_false_iff_not, List.not_lt] at hab hbc ⊢
      exact List.le_trans hab hbc
    · simp only [Bool.or_eq_true, Bool.not_eq_true', decide_eq_false_iff_not, List.not_lt]
      exact List.le_total a.1 b.1
    · intro a b h
      simpa only [Bool.not_eq_true', decide_eq_false_iff_not, List.not_lt] using h
  have apart : (sortEntries entries).Pairwise fun a b => a.1 ≠ b.1 := by
    have moved : ((sortEntries entries).map Prod.fst).Nodup :=
      ((List.mergeSort_perm entries _).map Prod.fst).nodup_iff.2 distinct
    exact List.pairwise_map.1 moved
  exact (inOrder.and apart).imp fun h => Std.lt_of_le_of_ne h.1 h.2

/-- The directories of a well named tree can be put in order, and then their names ascend. -/
theorem WellNamed.sorted_ascend {node : Node} (named : WellNamed node) :
    Throughout NamesAscend node.sorted := by
  induction named with
  | file content => exact .file content
  | link target => exact .link target
  | special content => exact .special content
  | shut isDirectory failure => exact .shut isDirectory failure
  | @directory entries here inner ih =>
    refine .directory ?_ fun e found => ?_
    · refine names_sortEntries_ascend ?_
      simpa [sortedAll_eq_map, Function.comp_def] using here.distinct
    · obtain ⟨child, inside, sorted⟩ := mem_sortEntries_sortedAll.1 found
      exact sorted ▸ ih _ inside

/-- The names that lead somewhere in a well named tree are legal. -/
theorem Leads.legal {path : Path} {node found : Node} {names : List Bytes}
    (leads : Leads path node names found) (named : WellNamed node) :
    ∀ name ∈ names, Path.Legal name := by
  induction leads with
  | here => exact fun _ h => absurd h List.not_mem_nil
  | through _ entry _ ih =>
    cases named with
    | directory here inner =>
      intro name h
      rcases List.mem_cons.1 h with rfl | h
      · exact here.legal _ entry
      · exact ih (inner _ entry) name h

/-! ## The order of a walk -/

/-- An entry of a trail, seen from the directory that holds it under a name. -/
def under (name : Bytes) (e : List Bytes × Node) : List Bytes × Node := (name :: e.1, e.2)

mutual

/-- What is below a node in the order of a walk: the names that lead to each node, and the node. -/
def trailInside (path : Path) : Node → List (List Bytes × Node)
  | directory entries => if maxPath < path.text.length then [] else trailAll path entries
  | _ => []

/-- What is at and below the entries of a directory in the order of a walk. -/
def trailAll (path : Path) : List (Bytes × Node) → List (List Bytes × Node)
  | [] => []
  | (name, node) :: rest =>
    ([name], node) :: (node.trailInside (path.join name)).map (under name) ++ trailAll path rest

end

/-- What is at and below a node in the order of a walk. -/
def trail (path : Path) (node : Node) : List (List Bytes × Node) := ([], node) :: node.trailInside path

theorem trailAll_cons (path : Path) (name : Bytes) (node : Node) (rest : List (Bytes × Node)) :
    trailAll path ((name, node) :: rest) =
      (node.trail (path.join name)).map (under name) ++ trailAll path rest := rfl

theorem mem_trailAll_iff {path : Path} {entries : List (Bytes × Node)} {e : List Bytes × Node} :
    e ∈ trailAll path entries ↔ ∃ name child inner, (name, child) ∈ entries ∧
      inner ∈ child.trail (path.join name) ∧ under name inner = e := by
  induction entries with
  | nil => simp [trailAll]
  | cons entry rest ih =>
    rw [trailAll_cons, List.mem_append, ih, List.mem_map]
    constructor
    · rintro (⟨inner, found, rfl⟩ | ⟨name, child, inner, inside, found⟩)
      · exact ⟨_, _, inner, List.mem_cons_self, found, rfl⟩
      · exact ⟨name, child, inner, List.mem_cons_of_mem _ inside, found⟩
    · rintro ⟨name, child, inner, inside, found, rfl⟩
      rcases List.mem_cons.1 inside with rfl | inside
      · exact .inl ⟨inner, found, rfl⟩
      · exact .inr ⟨name, child, inner, inside, found, rfl⟩

/-- Only the node itself is in its trail without names. -/
theorem ne_nil_of_mem_trailInside {path : Path} {node : Node} {e : List Bytes × Node}
    (inside : e ∈ node.trailInside path) : e.1 ≠ [] := by
  cases node with
  | file | link | special | shut => cases inside
  | directory entries =>
    rw [trailInside] at inside
    split at inside
    · cases inside
    · obtain ⟨_, _, _, _, _, rfl⟩ := mem_trailAll_iff.1 inside
      exact List.cons_ne_nil _ _

theorem mem_trail_of_leads {path : Path} {node found : Node} {names : List Bytes}
    (leads : Leads path node names found) : (names, found) ∈ node.trail path := by
  induction leads with
  | here path node => exact List.mem_cons_self
  | @through path entries name child node names listed entry _ ih =>
    rw [trail, trailInside, if_neg (Nat.not_lt.2 listed)]
    exact List.mem_cons_of_mem _ (mem_trailAll_iff.2 ⟨name, child, _, entry, ih, rfl⟩)

theorem leads_of_mem_trail {names : List Bytes} :
    ∀ {path : Path} {node found : Node}, (names, found) ∈ node.trail path →
      Leads path node names found := by
  induction names with
  | nil =>
    intro path node found h
    rcases List.mem_cons.1 h with same | inside
    · cases same
      exact .here _ _
    · exact absurd rfl (ne_nil_of_mem_trailInside inside)
  | cons name names ih =>
    intro path node found h
    rcases List.mem_cons.1 h with no | inside
    · cases no
    cases node with
    | file | link | special | shut => cases inside
    | directory entries =>
      rw [trailInside] at inside
      split at inside
      · cases inside
      · next listed =>
        obtain ⟨_, child, ⟨_, _⟩, entry, below, same⟩ := mem_trailAll_iff.1 inside
        cases same
        exact .through (Nat.not_lt.1 listed) entry (ih below)

/-- A trail lists what names lead to, and nothing else. -/
theorem mem_trail_iff {path : Path} {node found : Node} {names : List Bytes} :
    (names, found) ∈ node.trail path ↔ Leads path node names found :=
  ⟨leads_of_mem_trail, mem_trail_of_leads⟩

theorem mem_trailInside_iff {path : Path} {node found : Node} {names : List Bytes} :
    (names, found) ∈ node.trailInside path ↔ names ≠ [] ∧ Leads path node names found := by
  rw [← mem_trail_iff, trail, List.mem_cons]
  constructor
  · exact fun inside => ⟨ne_nil_of_mem_trailInside inside, .inr inside⟩
  · rintro ⟨filled, same | inside⟩
    · exact absurd (congrArg Prod.fst same) filled
    · exact inside

/-- One trail entry comes before another in a walk: its names are smaller, a directory's own
smaller than those below it. -/
abbrev TrailAscends (trail : List (List Bytes × Node)) : Prop := trail.Pairwise fun a b => a.1 < b.1

theorem trailAll_ascending {path : Path} {entries : List (Bytes × Node)}
    (ascend : NamesAscend entries)
    (inner : ∀ e ∈ entries, TrailAscends (e.2.trail (path.join e.1))) :
    TrailAscends (trailAll path entries) := by
  induction entries with
  | nil => exact .nil
  | cons entry rest ih =>
    obtain ⟨before, ascend⟩ := List.pairwise_cons.1 ascend
    rw [trailAll_cons]
    refine List.pairwise_append.2 ⟨?_, ih ascend fun e h => inner e (List.mem_cons_of_mem _ h), ?_⟩
    · refine List.pairwise_map.2 ((inner entry List.mem_cons_self).imp fun h => ?_)
      exact List.cons_lt_cons_iff.2 (.inr ⟨rfl, h⟩)
    · intro a first b later
      obtain ⟨_, _, rfl⟩ := List.mem_map.1 first
      obtain ⟨name, child, _, inside, _, rfl⟩ := mem_trailAll_iff.1 later
      exact List.cons_lt_cons_iff.2 (.inl (before _ inside))

/-- Where directories are in order, a walk comes to ascending names. -/
theorem trail_ascending {node : Node} (ascend : Throughout NamesAscend node) :
    ∀ path : Path, TrailAscends (node.trail path) := by
  induction ascend with
  | file | link | special | shut => exact fun _ => List.pairwise_singleton _ _
  | @directory entries here inner ih =>
    intro path
    rw [trail, trailInside]
    split
    · exact List.pairwise_singleton _ _
    · refine List.pairwise_cons.2 ⟨?_, trailAll_ascending here fun e h => ih e h _⟩
      intro e h
      obtain ⟨_, _, _, _, _, rfl⟩ := mem_trailAll_iff.1 h
      exact List.nil_lt_cons _ _

end Node

/-! ## The visits of a walk -/

/-- The entry that a visit comes to, if it comes to one. -/
def Visit.entry? : Visit → Option (Path × Kind)
  | entry path kind => some (path, kind)
  | unreadable _ _ => none

namespace Node

/-- Why what is in a node at a path cannot be listed, if that is a directory and so. -/
def obstacle? (path : Path) : Node → Option Failure
  | directory _ => if maxPath < path.text.length then some .nameTooLong else none
  | shut true failure => some (if maxPath < path.text.length then .nameTooLong else failure)
  | _ => none

@[simp] theorem obstacle?_sorted (path : Path) (node : Node) :
    node.sorted.obstacle? path = node.obstacle? path := by
  cases node <;> rfl

/-- What a walk says of a node at a path that cannot be listed. -/
def obstructed (path : Path) (node : Node) : List Visit :=
  ((node.obstacle? path).map (Visit.unreadable path)).toList

/-- The visits of a walk at an entry of a trail that starts at a path. -/
def visitsAt (path : Path) (e : List Bytes × Node) : List Visit :=
  .entry (path.joinAll e.1) e.2.kind :: e.2.obstructed (path.joinAll e.1)

mutual

/-- A walk says that a node cannot be listed, if that is so, and visits the entries of the trail below
it, each once. -/
theorem visitsInside_eq (path : Path) : ∀ node : Node, node.visitsInside path =
    node.obstructed path ++ (node.trailInside path).flatMap (visitsAt path)
  | file _ => rfl
  | link _ => rfl
  | special _ => rfl
  | shut false _ => rfl
  | shut true _ => rfl
  | directory entries => by
    rw [visitsInside, obstructed, obstacle?, trailInside]
    split
    · rfl
    · exact visitsAll_eq path entries

theorem visitsAll_eq (path : Path) : ∀ entries : List (Bytes × Node),
    visitsAll path entries = (trailAll path entries).flatMap (visitsAt path)
  | [] => rfl
  | (name, node) :: rest => by
    rw [visitsAll, visitsInside_eq (path.join name) node, visitsAll_eq path rest, trailAll_cons,
      List.flatMap_append, List.flatMap_map, trail]
    rfl

end

/-- An entry of a trail that starts at a path, by its own path. -/
def located (path : Path) (e : List Bytes × Node) : Path × Kind := (path.joinAll e.1, e.2.kind)

/-- A walk comes to the entries of its trail, in their order. -/
theorem entries_visitsInside (path : Path) (node : Node) :
    (node.visitsInside path).filterMap Visit.entry? = (node.trailInside path).map (located path) := by
  have nothing : ∀ (path : Path) (node : Node),
      (node.obstructed path).filterMap Visit.entry? = [] := by
    intro path node
    rw [obstructed]
    cases node.obstacle? path <;> rfl
  have single : ∀ e, (visitsAt path e).filterMap Visit.entry? = [located path e] := by
    intro e
    rw [visitsAt, List.filterMap_cons, nothing]
    rfl
  rw [visitsInside_eq, List.filterMap_append, nothing, List.nil_append, List.filterMap_flatMap,
    List.map_eq_flatMap]
  simp only [single]

end Node

end DefTally.FileSystem
