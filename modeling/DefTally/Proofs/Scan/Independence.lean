import DefTally.Proofs.FileSystem.Contents
import DefTally.Proofs.Process.Session
import DefTally.Proofs.Scan.Composition

/-!
# Files do not influence each other's counts

A real file below a root is at the place that its names tell (`names_of_locate_joinAll`), so when its
content changes, the count of another source file changes only if that is a link to it. What a parser
has met before is no other way for a file to influence a count (`scan_put`).
-/

namespace DefTally

open DefTally.FileSystem DefTally.Text

namespace Dictionary

section OfList

variable {ι α : Type} {l : List ι} {k : ι → String} {f g : ι → α} {key : String}

theorem isSome_lookup_map :
    ((l.map fun i => (k i, f i)).lookup key).isSome = l.any fun i => key == k i := by
  induction l with
  | nil => rfl
  | cons i rest ih =>
    rw [List.map_cons, List.lookup_cons, List.any_cons]
    cases key == k i with
    | true => rfl
    | false => exact ih

/-- Which keys a dictionary of entries has does not depend on their values. -/
theorem isSome_get?_ofList : ((ofList (l.map fun i => (k i, f i))).get? key).isSome =
    ((ofList (l.map fun i => (k i, g i))).get? key).isSome := by
  rw [get?_ofList, get?_ofList, ← List.map_reverse, ← List.map_reverse, isSome_lookup_map,
    isSome_lookup_map]

/-- What a dictionary of entries maps a key to depends on the values of the entries with the key. -/
theorem get?_ofList_congr (same : ∀ i ∈ l, k i = key → f i = g i) :
    (ofList (l.map fun i => (k i, f i))).get? key = (ofList (l.map fun i => (k i, g i))).get? key := by
  rw [get?_ofList, get?_ofList, ← List.map_reverse, ← List.map_reverse]
  have same : ∀ i ∈ l.reverse, k i = key → f i = g i :=
    fun i inside => same i (List.mem_reverse.1 inside)
  generalize l.reverse = l at same
  induction l with
  | nil => rfl
  | cons i rest ih =>
    rw [List.map_cons, List.map_cons, List.lookup_cons, List.lookup_cons,
      ih fun i inside => same i (List.mem_cons_of_mem _ inside)]
    by_cases own : k i = key
    · rw [same i List.mem_cons_self own]
    · rw [beq_false_of_ne (Ne.symm own)]

end OfList

end Dictionary

namespace FileSystem

/-! ## Where a file below a root is -/

theorem Node.Leads.descend {path : Path} {node found : Node} {names : List Bytes}
    (leads : Node.Leads path node names found) (named : node.WellNamed) :
    node.descend names = some found := by
  induction leads with
  | here => rfl
  | through _ entry _ ih =>
    cases named with
    | directory here inner =>
      rw [Node.descend, lookup_of_mem here.distinct entry]
      exact ih (inner _ entry)

section Locate

variable {fs : FileSystem} {root : Path} {top p : Place} {names : List Bytes} {node : Node}

theorem resolve_of_locate (found : fs.locate true root = .ok (.place top)) :
    fs.resolve true root = .ok top.node := by
  rw [resolve, found]

/-- A path that goes on below a directory is at the place that its further names tell, if it leads
anywhere. -/
theorem names_of_locate_joinAll (found : fs.locate true root = .ok (.place top))
    (at_ : top.node.descend names = some node) (notLink : node.kind ≠ .link)
    (legal : ∀ name ∈ names, Path.Legal name)
    (found' : fs.locate true (root.joinAll names) = .ok (.place p)) : p.names = top.names ++ names := by
  by_cases filled : names = []
  · subst filled
    rw [Path.joinAll_nil, found] at found'
    cases found'
    simp
  obtain ⟨-, -, walked⟩ := walk_of_locate found'
  obtain ⟨left, onward⟩ := walk_append filled maxLinks root.endsInSlash (startOf fs root) root.names
    (walk_of_locate found).2.2
  rw [startOf_joinAll fs root filled legal, Path.endsInSlash_joinAll root filled legal,
    Path.names_joinAll root filled legal, onward] at walked
  obtain arrives | ⟨-, refused⟩ := walk_down left notLink legal top at_
  · rw [arrives] at walked
    cases walked
    rfl
  · rw [refused] at walked
    cases walked

end Locate

/-! ## Another content -/

section Put

variable {fs : FileSystem} {place : List Bytes} {old new : Bytes}

theorem sourceNames_put (at_ : fs.root.descend place = some (.file old)) (root : Path) :
    (fs.put place (.file new)).sourceNames root = fs.sourceNames root := by
  have same : (fs.put place (.file new)).outline = fs.outline := outline_put at_
  have sources : ∀ path kind, (fs.put place (.file new)).isSource path kind = fs.isSource path kind := by
    intro path kind
    rw [isSource, isSource, ← isDirectory_outline, same, isDirectory_outline]
  have outlined : ∀ fs : FileSystem, fs.sourceNames root = ((fs.outline.entriesBelow root).filter
      fun e => fs.isSource (root.joinAll e.1) e.2.kind).map Prod.fst := by
    intro fs
    rw [sourceNames, entriesBelow_outline, List.filter_map, List.map_map]
    simp only [Function.comp_def, Node.outlined, Node.kind_outline]
  rw [outlined, outlined, same]
  simp only [sources]

theorem count_put_of_ne (at_ : fs.root.descend place = some (.file old)) {path : Path}
    (elsewhere : ∀ p, fs.locate true path = .ok (.place p) → p.names ≠ place) :
    (fs.put place (.file new)).count path = fs.count path := by
  rw [count, count, tryCount, tryCount, read_put_of_ne at_ elsewhere]

end Put

/-- Files do not influence each other's counts. A file below a root can be given another content,
whatever it is. That makes no difference to which keys a scan has, nor to the value of any key but that
of the file itself and those of links that lead to the file; and no file influences the count of another
one through the parser: a scan and every answer of a session is as the file system is then, whatever
the counter was used for before. -/
theorem scan_put (fs : FileSystem) (root : Path) (top : Place)
    (found : fs.locate true root = .ok (.place top)) (names : List Bytes) (old new : Bytes)
    (file : top.node.Leads root names (.file old)) :
    (fs.put (top.names ++ names) (.file new)).root.descend (top.names ++ names) = some (.file new) ∧
    (∀ key, (((fs.put (top.names ++ names) (.file new)).scan root).get? key).isSome =
      ((fs.scan root).get? key).isSome) ∧
    (∀ key, key ≠ keyOf names →
      (∀ link target p, top.node.Leads root link (.link target) →
        fs.locate true (root.joinAll link) = .ok (.place p) → p.names = top.names ++ names →
        key ≠ keyOf link) →
      ((fs.put (top.names ++ names) (.file new)).scan root).get? key = (fs.scan root).get? key) ∧
    (∀ p : Process, (Process.scan root p).1 = p.fileSystem.scan root) ∧
    ∀ (steps : List Step) (c : Counter) (p : Process),
      (session steps c p).1.1 = answersAlone p.fileSystem steps := by
  have wellNamed := resolve_wellNamed (resolve_of_locate found)
  have at_ : fs.root.descend (top.names ++ names) = some (.file old) := by
    rw [Node.descend_append, locate_in fs true root top found]
    exact file.descend wellNamed
  have entries : (fs.put (top.names ++ names) (.file new)).scan root =
      .ofList ((fs.sourceNames root).map fun names' =>
        (keyOf names', (fs.put (top.names ++ names) (.file new)).count (root.joinAll names'))) := by
    rw [scan_eq_ofList, sourceNames_put at_]
    rfl
  refine ⟨?_, fun key => ?_, fun key notOwn notLinked => ?_, fun p => ?_, session_answers⟩
  · rw [root_put at_]
    exact descend_alter_self at_
  · rw [entries, scan_eq_ofList]
    exact Dictionary.isSome_get?_ofList
  · rw [entries, scan_eq_ofList]
    refine Dictionary.get?_ofList_congr fun other inside same => ?_
    refine count_put_of_ne at_ fun p located same' => ?_
    subst same
    obtain ⟨_, node, _, lead, leads, -⟩ := mem_sourceNames_iff.1 inside
    rw [resolve_of_locate found, Except.ok.injEq] at lead
    subst lead
    by_cases isLink : node.kind = .link
    · obtain ⟨target, rfl⟩ := Node.kind_eq_link_iff.1 isLink
      exact notLinked other target p leads located same' rfl
    · have placed := names_of_locate_joinAll found (leads.descend wellNamed) isLink
        (leads.legal wellNamed) located
      rw [same'] at placed
      exact notOwn (by rw [List.append_cancel_left placed])
  · rw [Process.scan_eq]

/-- A directory with two files, and a link to the first of them. -/
def aliased : FileSystem where
  root := .directory [([0x61, 0x2e, 0x70, 0x79], .file [0]),
    ([0x62, 0x2e, 0x70, 0x79], .link ⟨[0x61, 0x2e, 0x70, 0x79]⟩),
    ([0x63, 0x2e, 0x70, 0x79], .file [0])]
  working := []
  wellNamed := by decide
  hasWorking := by decide

/-- An open bracket in the place of the first file: the second file counts as before. -/
theorem scan_put_aliased :
    (aliased.put [[0x61, 0x2e, 0x70, 0x79]] (.file [0x28])).root.descend [[0x61, 0x2e, 0x70, 0x79]] =
      some (.file [0x28]) ∧
    ((aliased.scan ⟨Path.dot⟩).get? "c.py").isSome ∧
    ((aliased.put [[0x61, 0x2e, 0x70, 0x79]] (.file [0x28])).scan ⟨Path.dot⟩).get? "c.py" =
      (aliased.scan ⟨Path.dot⟩).get? "c.py" := by
  have second : aliased.SourceBelow ⟨Path.dot⟩ [[0x63, 0x2e, 0x70, 0x79]] :=
    ⟨_, .file [0], _, rfl, .through (by decide) (by simp) (.here _ _), rfl, by decide, .inl rfl⟩
  obtain ⟨there, -, values, -⟩ := scan_put aliased ⟨Path.dot⟩ _ rfl [[0x61, 0x2e, 0x70, 0x79]] [0] [0x28]
    (.through (by decide) List.mem_cons_self (.here _ _))
  refine ⟨there, isSome_get?_of_source second, values "c.py" (by decide) ?_⟩
  rintro link target p leads - -
  cases leads with
  | through _ entry further =>
    simp only [List.mem_cons, List.not_mem_nil, or_false, Prod.mk.injEq] at entry
    rcases entry with ⟨rfl, rfl⟩ | ⟨rfl, rfl⟩ | ⟨rfl, rfl⟩ <;> cases further
    decide

end FileSystem

end DefTally
