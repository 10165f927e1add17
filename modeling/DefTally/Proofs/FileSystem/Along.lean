import DefTally.Proofs.FileSystem.Places
import DefTally.Proofs.FileSystem.Visits
import DefTally.Proofs.Path.Chain

/-!
# Paths that go on below a directory

A path that is joined to that of a directory leads on from the directory: the links of the first
part are followed as they were (`walk_append`), and names that lead down real directories lead to
what is there (`resolve_joinAll`).
-/

namespace DefTally.FileSystem

open DefTally.Text

/-- A name that can be looked up: it is short enough and has no null byte. -/
structure Storable (name : Bytes) : Prop where
  short : name.length ≤ maxName
  noNul : 0 ∉ name

instance (name : Bytes) : Decidable (Storable name) :=
  decidable_of_iff (name.length ≤ maxName ∧ 0 ∉ name)
    ⟨fun ⟨short, noNul⟩ => ⟨short, noNul⟩, fun stored => ⟨stored.short, stored.noNul⟩⟩

/-- All names below a root can be looked up. -/
def StorableBelow (fs : FileSystem) (root : Path) : Prop :=
  ∀ top, fs.resolve true root = .ok top →
    top.Throughout fun entries => ∀ e ∈ entries, Storable e.1

/-- An entry is found under its name, where names differ. -/
theorem lookup_of_mem {entries : List (Bytes × Node)} {name : Bytes} {node : Node}
    (distinct : (entries.map Prod.fst).Nodup) (inside : (name, node) ∈ entries) :
    entries.lookup name = some node := by
  obtain ⟨before, after, rfl⟩ := List.append_of_mem inside
  refine List.lookup_eq_some_iff.2 ⟨before, after, rfl, fun e earlier => ?_⟩
  rw [List.map_append, List.map_cons] at distinct
  have apart := (List.nodup_append.1 distinct).2.2 e.1 (List.mem_map_of_mem earlier) name
    List.mem_cons_self
  exact bne_iff_ne.2 (Ne.symm apart)

section Walk

variable {root : Node}

/-- What names lead to when they are walked along from a place, as far as there are links left. -/
def LeadsOn (root : Node) (result : Except Failure Found) (there : Place) (more : List Bytes) : Prop :=
  ∃ left, result = walk root true left false there more

theorem walkNames_append {onLink : Bool → Place → Path → List Bytes → Except Failure Found}
    (links : Nat) (own : walk root true links = walkNames root true onLink) {more : List Bytes}
    {there : Place}
    (goesOn : ∀ asks here target rest, onLink asks here target rest = .ok (.place there) →
      LeadsOn root (onLink false here target (rest ++ more)) there more)
    (asks : Bool) (names : List Bytes) :
    ∀ here, walkNames root true onLink asks here names = .ok (.place there) →
      LeadsOn root (walkNames root true onLink false here (names ++ more)) there more := by
  induction names with
  | nil =>
    intro here found
    rw [walkNames] at found
    split at found
    · cases found
    · cases found
      exact ⟨links, by rw [own, List.nil_append]⟩
  | cons name rest ih =>
    intro here found
    rw [List.cons_append, walkNames_cons_followed]
    rw [walkNames_cons_followed] at found
    cases first : lookUp root here name with
    | refused e => simp [first] at found
    | place there =>
      rw [first] at found
      exact ih there found
    | link target =>
      rw [first] at found
      exact goesOn asks here target rest found
    | absent =>
      simp only [first] at found
      split at found <;> cases found

/-- Names that lead to a place lead on from it, with the links that are left. -/
theorem walk_append {there : Place} {more : List Bytes} (some : more ≠ []) (links : Nat) : ∀ asks here names,
    walk root true links asks here names = .ok (.place there) →
      LeadsOn root (walk root true links false here (names ++ more)) there more := by
  induction links with
  | zero =>
    intro asks here names found
    exact walkNames_append 0 rfl (fun _ _ _ _ no => by cases no) asks names here found
  | succ links ih =>
    intro asks here names found
    refine walkNames_append (links + 1) rfl (fun asks here target rest found => ?_) asks names here
      found
    have notLast : (rest ++ more).isEmpty = false :=
      List.isEmpty_eq_false_iff.2 (List.append_ne_nil_of_right_ne_nil _ some)
    simp only [notLast, Bool.false_and, Bool.or_false, ← List.append_assoc]
    exact ih _ _ _ found

/-- Names that lead down real directories are walked along to what is there, unless one of them is too
long. -/
theorem walk_down (left : Nat) {names : List Bytes} {node : Node} (notLink : node.kind ≠ .link)
    (legal : ∀ name ∈ names, Path.Legal name) : ∀ here : Place, here.node.descend names = some node →
      walk root true left false here names = .ok (.place ⟨here.names ++ names, node⟩) ∨
        (∃ name ∈ names, maxName < name.length) ∧
          walk root true left false here names = .error .nameTooLong := by
  have own : ∃ onLink, walk root true left = walkNames root true onLink := by
    cases left <;> exact ⟨_, rfl⟩
  obtain ⟨onLink, own⟩ := own
  rw [own]
  induction names with
  | nil =>
    intro here found
    cases found
    simp [walkNames]
  | cons name rest ih =>
    intro here found
    obtain ⟨entries, child, isDirectory, entry, below⟩ := Node.descend_cons found
    have proper := legal name List.mem_cons_self
    have looked := looksUp root here name
    rw [walkNames_cons_followed]
    generalize lookUp root here name = result at looked ⊢
    cases looked with
    | closed closed => exact absurd isDirectory (closed _)
    | own isOwn => exact absurd isOwn proper.not_dot
    | up isUp => exact absurd isUp proper.not_dotDot
    | tooLong long => exact .inr ⟨⟨name, List.mem_cons_self, long⟩, rfl⟩
    | entry at_ listed =>
      cases isDirectory.symm.trans at_
      cases entry.symm.trans listed
      obtain arrives | ⟨⟨later, inside, long⟩, refused⟩ :=
        ih (fun n h => legal n (List.mem_cons_of_mem _ h)) ⟨here.names ++ [name], child⟩ below
      · exact .inl (by simpa using arrives)
      · exact .inr ⟨⟨later, List.mem_cons_of_mem _ inside, long⟩, refused⟩
    | link at_ listed =>
      cases isDirectory.symm.trans at_
      cases entry.symm.trans listed
      -- Nothing is below a link, so it would have to be the node itself.
      cases rest with
      | nil =>
        cases below
        exact absurd rfl notLink
      | cons next more => cases below
    | absent at_ _ _ missing =>
      cases isDirectory.symm.trans at_
      cases entry.symm.trans missing

/-- Names lead down real directories to what is there, if they can be looked up. -/
theorem walk_descend (left : Nat) {names : List Bytes} {node : Node} (notLink : node.kind ≠ .link)
    (legal : ∀ name ∈ names, Path.Legal name) (stored : ∀ name ∈ names, Storable name) (here : Place)
    (found : here.node.descend names = some node) :
    walk root true left false here names = .ok (.place ⟨here.names ++ names, node⟩) := by
  obtain arrives | ⟨⟨name, inside, long⟩, -⟩ := walk_down left notLink legal here found
  · exact arrives
  · exact absurd long (Nat.not_lt.2 (stored name inside).short)

end Walk

/-! ## Where a path leads -/

/-- A path that leads to a place is walked along. -/
theorem walk_of_locate {fs : FileSystem} {p : Path} {here : Place}
    (found : fs.locate true p = .ok (.place here)) : p.text ≠ [] ∧ 0 ∉ p.text ∧
      walk fs.root true maxLinks p.endsInSlash (startOf fs p) p.names = .ok (.place here) := by
  rcases locate_cases p with ⟨e, refused⟩ | ⟨noNul, filled, -, walked⟩
  · rw [refused] at found
    cases found
  · exact ⟨filled, noNul, walked fs true ▸ found⟩

theorem mem_chain {names : List Bytes} {b : UInt8} (inside : b ∈ Path.chain names) :
    b = Path.slash ∨ ∃ name ∈ names, b ∈ name := by
  induction names with
  | nil => cases inside
  | cons name rest ih =>
    by_cases single : rest = []
    · subst single
      exact .inr ⟨name, List.mem_cons_self, inside⟩
    · rw [Path.chain_cons name single, List.mem_append, List.mem_cons] at inside
      rcases inside with inside | rfl | inside
      · exact .inr ⟨name, List.mem_cons_self, inside⟩
      · exact .inl rfl
      · rcases ih inside with mark | ⟨later, isLater, inside⟩
        · exact .inl mark
        · exact .inr ⟨later, List.mem_cons_of_mem _ isLater, inside⟩

theorem nul_not_mem_joinAll {p : Path} {names : List Bytes} (noNul : 0 ∉ p.text)
    (filled : names ≠ []) (legal : ∀ name ∈ names, Path.Legal name)
    (stored : ∀ name ∈ names, Storable name) : 0 ∉ (p.joinAll names).text := by
  rw [Path.joinAll_text p filled legal, List.mem_append, not_or]
  constructor
  · unfold Path.stem
    split
    · exact noNul
    · exact fun inside => (List.mem_append.1 inside).elim noNul (by decide)
  · intro inside
    rcases mem_chain inside with mark | ⟨name, isName, inside⟩
    · cases mark
    · exact (stored name isName).noNul inside

theorem startOf_joinAll (fs : FileSystem) (p : Path) {names : List Bytes} (filled : names ≠ [])
    (legal : ∀ name ∈ names, Path.Legal name) : startOf fs (p.joinAll names) = startOf fs p := by
  rw [startOf, Path.isAbsolute_joinAll p filled legal]
  rfl

/-- A path with further names leads to where its names and they lead. -/
theorem locate_joinAll {fs : FileSystem} {p : Path} {names : List Bytes} (filled : names ≠ [])
    (legal : ∀ name ∈ names, Path.Legal name) (noNul : 0 ∉ (p.joinAll names).text)
    (short : (p.joinAll names).text.length ≤ maxPath) (follow : Bool) :
    fs.locate follow (p.joinAll names) =
      walk fs.root follow maxLinks false (startOf fs p) (p.names ++ names) := by
  have filled' : (p.joinAll names).text ≠ [] := by
    rw [Path.joinAll_text p filled legal]
    exact List.append_ne_nil_of_right_ne_nil _ (Path.chain_ne_nil filled legal)
  rw [locate_eq noNul filled' short, startOf_joinAll fs p filled legal,
    Path.endsInSlash_joinAll p filled legal, Path.names_joinAll p filled legal]

/-- A path that goes on below a directory leads to what its further names lead to in the tree. -/
theorem resolve_joinAll {fs : FileSystem} {p : Path} {top node : Node} {names : List Bytes}
    (found : fs.resolve true p = .ok top) (at_ : top.descend names = some node)
    (notLink : node.kind ≠ .link) (legal : ∀ name ∈ names, Path.Legal name)
    (stored : ∀ name ∈ names, Storable name) (short : (p.joinAll names).text.length ≤ maxPath) :
    fs.resolve true (p.joinAll names) = .ok node := by
  by_cases filled : names = []
  · subst filled
    rw [Path.joinAll_nil, found, ← Option.some.inj at_]
  obtain ⟨here, rfl, located⟩ := locate_of_resolve found
  obtain ⟨-, noNul, walked⟩ := walk_of_locate located
  obtain ⟨left, onward⟩ := walk_append filled maxLinks p.endsInSlash (startOf fs p) p.names walked
  have noNul' := nul_not_mem_joinAll noNul filled legal stored
  rw [resolve, locate_joinAll filled legal noNul' short, onward,
    walk_descend left notLink legal stored here at_]

/-! ## Entries below a directory below a node -/

theorem length_le_joinAll (p : Path) {names : List Bytes} (legal : ∀ name ∈ names, Path.Legal name) :
    p.text.length ≤ (p.joinAll names).text.length := by
  by_cases filled : names = []
  · subst filled
    exact Nat.le_refl _
  rw [Path.joinAll_text p filled legal, List.length_append]
  exact Nat.le_trans p.length_le_stem (Nat.le_add_right _ _)

namespace Node

/-- The names that lead down a tree are as those of its entries are. -/
theorem names_of_descend {P : List (Bytes × Node) → Prop} {Q : Bytes → Prop}
    (entry : ∀ {entries}, P entries → ∀ e ∈ entries, Q e.1) {names : List Bytes} :
    ∀ {node found : Node}, node.Throughout P → node.descend names = some found → ∀ name ∈ names, Q name := by
  induction names with
  | nil => exact fun _ _ _ no => absurd no List.not_mem_nil
  | cons name rest ih =>
    intro node found throughout at_ n inside
    obtain ⟨entries, child, rfl, listed, below⟩ := descend_cons at_
    have isEntry := mem_of_lookup listed
    cases throughout with
    | directory here inner =>
      rcases List.mem_cons.1 inside with rfl | inside
      · exact entry here _ isEntry
      · exact ih (inner _ isEntry) below n inside

/-- The names that lead to something in a well named tree are legal. -/
theorem WellNamed.names {names : List Bytes} {node found : Node} (named : node.WellNamed)
    (at_ : node.descend names = some found) : ∀ name ∈ names, Path.Legal name :=
  names_of_descend ProperNames.legal named at_

/-- Names lead on below what names lead down to, if that can be listed. -/
theorem leads_append_iff {names later : List Bytes} {mid found : Node} (some : later ≠ []) :
    ∀ {path : Path} {node : Node}, node.WellNamed → node.descend names = .some mid →
      (Leads path node (names ++ later) found ↔
        (path.joinAll names).text.length ≤ maxPath ∧ Leads (path.joinAll names) mid later found) := by
  induction names with
  | nil =>
    intro path node named at_
    cases at_
    rw [List.nil_append, Path.joinAll_nil, iff_and_self]
    intro leads
    cases leads with
    | here => exact absurd rfl some
    | through listed _ _ => exact listed
  | cons name rest ih =>
    intro path node named at_
    have legal := named.names at_
    obtain ⟨entries, child, rfl, entry, below⟩ := descend_cons at_
    have inner := @ih (path.join name) _ (named.child entry).2 below
    rw [Path.joinAll_cons, ← inner]
    constructor
    · intro leads
      cases leads with
      | through listed inside further =>
        cases named with
        | directory here _ =>
          rw [lookup_of_mem here.distinct inside, Option.some.injEq] at entry
          exact entry ▸ further
    · intro further
      have short := (inner.1 further).1
      have less := length_le_joinAll path legal
      rw [Path.joinAll_cons] at less
      exact .through (Nat.le_trans less short) (mem_of_lookup entry) further

end Node

end DefTally.FileSystem
