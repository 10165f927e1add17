import DefTally.Proofs.FileSystem.Alike
import DefTally.Proofs.Process.Run
import DefTally.Proofs.Scan.Composition

/-!
# Listing order

Directories list their entries in some order (`Node.Relisted`). Look-ups do not depend on it, so paths
do not tell relisted trees apart (`likeness_relisted`), and put in order they are the same tree
(`Node.Relisted.sorted_eq`). Hence a walk visits the same in both of them, and a scan comes to the same
findings one after the other (`findings_relisted`), from which all else follows (`scan_relisted`).
-/

namespace DefTally

open DefTally.FileSystem DefTally.Json DefTally.Log DefTally.Output DefTally.Text

namespace FileSystem

/-! ## Relisted trees -/

/-- Two trees are the same, but for the order in which their directories list their entries: the
entries of both are those of a list of names, each with what is there in the one tree and in the
other. -/
inductive Node.Relisted : Node → Node → Prop where
  | file (content : Bytes) : Relisted (file content) (file content)
  | directory {entries entries' : List (Bytes × Node)} (pairs : List (Bytes × Node × Node))
      (listed : entries.Perm (pairs.map fun p => (p.1, p.2.1)))
      (listed' : entries'.Perm (pairs.map fun p => (p.1, p.2.2)))
      (inner : ∀ p ∈ pairs, Relisted p.2.1 p.2.2) :
      Relisted (directory entries) (directory entries')
  | link (target : Path) : Relisted (link target) (link target)
  | special (content : Bytes) : Relisted (special content) (special content)
  | shut (isDirectory : Bool) (failure : Failure) :
      Relisted (shut isDirectory failure) (shut isDirectory failure)

namespace Node

variable {a b : Node}

/-- The names of a tree stay proper in another order. -/
theorem Relisted.wellNamed (relisted : a.Relisted b) : a.WellNamed → b.WellNamed := by
  induction relisted with
  | file | link | special | shut => exact id
  | @directory entries entries' pairs listed listed' _ ih =>
    rintro (_ | ⟨here, inner⟩)
    have names : (entries'.map Prod.fst).Perm (entries.map Prod.fst) := by
      refine (listed'.map Prod.fst).trans (.trans (.of_eq ?_) (listed.map Prod.fst).symm)
      rw [List.map_map, List.map_map]
      rfl
    refine .directory ⟨fun e inside => ?_, names.nodup_iff.2 here.distinct⟩ fun e inside => ?_
    · obtain ⟨own, found, same⟩ := List.mem_map.1 (names.mem_iff.1 (List.mem_map_of_mem inside))
      exact same ▸ here.legal own found
    · obtain ⟨p, isPair, rfl⟩ := List.mem_map.1 (listed'.mem_iff.1 inside)
      exact ih p isPair (inner _ (listed.mem_iff.2 (List.mem_map_of_mem isPair)))

/-- Put in order, a tree and the tree in another order are the same. -/
theorem Relisted.sorted_eq (relisted : a.Relisted b) : a.WellNamed → a.sorted = b.sorted := by
  induction relisted with
  | file | link | special | shut => exact fun _ => rfl
  | @directory entries entries' pairs listed listed' inside ih =>
    intro named
    have named' := (Relisted.directory pairs listed listed' inside).wellNamed named
    have ascend : NamesAscend (sortEntries (sortedAll entries)) := by
      cases named.sorted_ascend with
      | directory here _ => exact here
    have ascend' : NamesAscend (sortEntries (sortedAll entries')) := by
      cases named'.sorted_ascend with
      | directory here _ => exact here
    have same : (sortedAll entries).Perm (sortedAll entries') := by
      cases named with
      | directory _ inner =>
        rw [sortedAll_eq_map, sortedAll_eq_map]
        refine (listed.map _).trans (.trans (.of_eq ?_) (listed'.map _).symm)
        rw [List.map_map, List.map_map]
        refine List.map_congr_left fun p isPair => ?_
        have own := ih p isPair (inner _ (listed.mem_iff.2 (List.mem_map_of_mem isPair)))
        simp only [Function.comp_apply, own]
    have sorted : sortEntries (sortedAll entries) = sortEntries (sortedAll entries') := by
      -- The names ascend on both sides and differ, so there is one order only.
      refine List.Perm.eq_of_pairwise (fun x y _ _ less more => absurd more (List.lt_asymm less))
        ascend ascend' ?_
      exact (List.mergeSort_perm _ _).trans (same.trans (List.mergeSort_perm _ _).symm)
    rw [Node.sorted, Node.sorted, sorted]

end Node

/-- Paths do not tell relisted trees apart. -/
theorem likeness_relisted : Likeness fun a b => a.WellNamed ∧ a.Relisted b := by
  rintro a b ⟨named, relisted⟩
  have named' := relisted.wellNamed named
  cases relisted with
  | file content => exact .file content content
  | link target => exact .link target
  | special content => exact .special content
  | shut isDirectory failure => exact .shut isDirectory failure
  | @directory entries entries' pairs listed listed' inside =>
    refine .directory fun name => ?_
    cases named with
    | directory here inner =>
    cases named' with
    | directory here' _ =>
    cases found : entries.lookup name with
    | some child =>
      obtain ⟨p, isPair, same⟩ := List.mem_map.1 (listed.mem_iff.1 (mem_of_lookup found))
      cases same
      have other := listed'.mem_iff.2 (List.mem_map_of_mem isPair)
      rw [lookup_of_mem here'.distinct other]
      exact .some ⟨inner _ (mem_of_lookup found), inside p isPair⟩
    | none =>
      cases found' : entries'.lookup name with
      | none => exact .none
      | some child' =>
        obtain ⟨p, isPair, same⟩ := List.mem_map.1 (listed'.mem_iff.1 (mem_of_lookup found'))
        cases same
        have other := listed.mem_iff.2 (List.mem_map_of_mem isPair)
        rw [lookup_of_mem here.distinct other] at found
        cases found

/-! ## Relisted file systems -/

/-- Two file systems hold the same tree and have the same working directory, but their directories
list their entries in different orders. -/
structure Relisted (fs fs' : FileSystem) : Prop where
  root : fs.root.Relisted fs'.root
  working : fs.working = fs'.working

section Relisted

variable {fs fs' : FileSystem}

/-- A path leads to relisted nodes, or fails in the same way. -/
theorem Relisted.resolve (relisted : fs.Relisted fs') (follow : Bool) (p : Path) :
    (∃ e, fs.resolve follow p = .error e ∧ fs'.resolve follow p = .error e) ∨
      ∃ a b, fs.resolve follow p = .ok a ∧ fs'.resolve follow p = .ok b ∧ a.WellNamed ∧ a.Relisted b :=
  resolve_alike likeness_relisted ⟨fs.wellNamed, relisted.root⟩ relisted.working follow p

theorem Relisted.read_eq (relisted : fs.Relisted fs') (p : Path) :
    fs'.read p = fs.read p := by
  rw [read, read]
  obtain ⟨e, failed, failed'⟩ | ⟨a, b, found, found', -, alike⟩ := relisted.resolve true p
  · rw [failed, failed']
  · rw [found, found']
    cases alike <;> rfl

theorem Relisted.isDirectory_eq (relisted : fs.Relisted fs') (p : Path) :
    fs'.isDirectory p = fs.isDirectory p := by
  rw [isDirectory, isDirectory]
  obtain ⟨e, failed, failed'⟩ | ⟨a, b, found, found', -, alike⟩ := relisted.resolve true p
  · rw [failed, failed']
  · rw [found, found']
    cases alike <;> rfl

/-- A walk visits the same paths in the same order. -/
theorem Relisted.visits_eq (relisted : fs.Relisted fs') (root : Path) :
    fs'.visits root = fs.visits root := by
  rw [visits, visits]
  obtain ⟨e, failed, failed'⟩ | ⟨a, b, found, found', namedA, alike⟩ :=
    relisted.resolve false root
  · rw [failed, failed']
  rw [found, found']
  have sorted := alike.sorted_eq namedA
  cases alike with
  | file | special | shut => rfl
  | directory => simp only [sorted]
  | link target =>
    obtain ⟨e, failed, failed'⟩ | ⟨a, b, followed, followed', namedA, alike⟩ :=
      relisted.resolve true root
    · rw [failed, failed']
    · rw [followed, followed']
      simp only [alike.sorted_eq namedA]

theorem Relisted.finding?_eq (relisted : fs.Relisted fs') :
    fs'.finding? = fs.finding? := by
  funext visit
  cases visit with
  | unreadable path failure => rfl
  | entry path kind =>
    have source : fs'.isSource path kind = fs.isSource path kind := by
      rw [isSource, isSource, relisted.isDirectory_eq]
    have count : fs'.tryCount path = fs.tryCount path := by
      rw [tryCount, tryCount, relisted.read_eq]
    rw [finding?, finding?, source, count]

/-- A scan comes to the same findings in the same order. -/
theorem findings_relisted (relisted : fs.Relisted fs') (root : Path) :
    fs'.findings root = fs.findings root := by
  rw [findings, findings, relisted.finding?_eq, visitsBelow, visitsBelow,
    relisted.visits_eq]

end Relisted

/-- A run sees of a file system only what scans come to. -/
theorem run_eq_of_findings {fs fs' : FileSystem}
    (same : ∀ root, fs'.findings root = fs.findings root) (reader : SettingReader) (i : Invocation)
    (stdout : Sink) : i.run reader fs' stdout = i.run reader fs stdout := by
  have scans : ∀ root, fs'.scan root = fs.scan root := fun root => by rw [scan, scan, same]
  have events : fs'.events i.commandLine = fs.events i.commandLine := by
    simp only [FileSystem.events, same]
  have print : fs'.print (folders i.commandLine) (LineBuffer.mk stdout []) =
      fs.print (folders i.commandLine) (LineBuffer.mk stdout []) := by
    simp only [FileSystem.print, scans]
  rw [Invocation.run, Invocation.run, events, print]

/-- The order in which directories list their entries does not matter. In two file systems that hold
the same tree a scan of a root comes to the same findings one after the other. So it has the same
tally, also of files that share a key, its line has the same bytes, the log of the scan is the same
whatever it shows, and whole runs of the program leave the same. -/
theorem scan_relisted (fs fs' : FileSystem) (relisted : fs.Relisted fs') (root : Path) :
    fs'.findings root = fs.findings root ∧
    fs'.scan root = fs.scan root ∧
    render (fs'.scan root).toValue = render (fs.scan root).toValue ∧
    (∀ shows stdout stderr,
      (Process.scan root ⟨fs', shows, stdout, stderr⟩).1 =
        (Process.scan root ⟨fs, shows, stdout, stderr⟩).1 ∧
      (Process.scan root ⟨fs', shows, stdout, stderr⟩).2.stderr =
        (Process.scan root ⟨fs, shows, stdout, stderr⟩).2.stderr) ∧
    ∀ parse : ArgumentParser, parse.TakesValues → ∀ reader (i : Invocation) stdout,
      (i.perform parse reader fs' stdout).1 = (i.perform parse reader fs stdout).1 := by
  have findings := findings_relisted relisted
  have scans : fs'.scan root = fs.scan root := by rw [scan, scan, findings]
  refine ⟨findings root, scans, by rw [scans], fun shows stdout stderr => ?_,
    fun parse takes reader i stdout => ?_⟩
  · rw [Process.scan_eq, Process.scan_eq]
    exact ⟨scans, by simp only [Process.told, findings]⟩
  · rw [Invocation.perform_eq takes, Invocation.perform_eq takes]
    exact run_eq_of_findings findings reader i stdout

/-- A directory that cannot be opened. -/
def shutDirectory : Node := .shut true .permissionDenied

/-- Two directories whose names are shown alike, with a file of one name in both of them. -/
def twins : FileSystem where
  root := .directory [([0xff], .directory [(sourceSuffix, .file [0]), ([0x78], shutDirectory)]),
    ([0xfe], .directory [(sourceSuffix, .file [])])]
  working := []
  wellNamed := by decide
  hasWorking := by decide

/-- The same directories, with their entries listed the other way round. -/
def twinsReversed : FileSystem where
  root := .directory [([0xfe], .directory [(sourceSuffix, .file [])]),
    ([0xff], .directory [([0x78], shutDirectory), (sourceSuffix, .file [0])])]
  working := []
  wellNamed := by decide
  hasWorking := by decide

theorem twins_relisted : twins.Relisted twinsReversed := by
  have greater : (Node.directory [(sourceSuffix, .file [0]), ([0x78], shutDirectory)]).Relisted
      (.directory [([0x78], shutDirectory), (sourceSuffix, .file [0])]) := by
    refine .directory [(sourceSuffix, .file [0], .file [0]), ([0x78], shutDirectory, shutDirectory)]
      (.refl _) (.swap _ _ _) fun p isPair => ?_
    simp only [List.mem_cons, List.not_mem_nil, or_false] at isPair
    rcases isPair with rfl | rfl
    · exact .file _
    · exact .shut _ _
  have less : (Node.directory [(sourceSuffix, .file [])]).Relisted
      (.directory [(sourceSuffix, .file [])]) :=
    .directory [(sourceSuffix, .file [], .file [])] (.refl _) (.refl _)
      fun p isPair => List.mem_singleton.1 isPair ▸ .file _
  refine ⟨.directory [([0xff], _, _), ([0xfe], _, _)] (.refl _) (.swap _ _ _) fun p isPair => ?_, rfl⟩
  simp only [List.mem_cons, List.not_mem_nil, or_false] at isPair
  rcases isPair with rfl | rfl
  · exact greater
  · exact less

/-- Of two files that share a key the same one supplies the value in both orders, and a run that logs
everything leaves the same. -/
theorem scan_relisted_twins : twins.Relisted twinsReversed ∧
    ArgumentParser.values.TakesValues ∧
    ((twins.scan ⟨Path.dot⟩).get? "\ufffd/.py").isSome ∧
    (twinsReversed.scan ⟨Path.dot⟩).get? "\ufffd/.py" = (twins.scan ⟨Path.dot⟩).get? "\ufffd/.py" ∧
    (Invocation.perform .values .lenient ⟨[programName, Path.dot],
      [(logVariable, Utf8.encode "trace".toList)]⟩ twinsReversed .unlimited).1 =
    (Invocation.perform .values .lenient ⟨[programName, Path.dot],
      [(logVariable, Utf8.encode "trace".toList)]⟩ twins .unlimited).1 := by
  have takes := ArgumentParser.values_takesValues
  have source : twins.SourceBelow ⟨Path.dot⟩ [[0xff], sourceSuffix] :=
    ⟨_, .file [0], _, rfl, .through (by decide) List.mem_cons_self
      (.through (by decide) List.mem_cons_self (.here _ _)), rfl, List.suffix_refl _, .inl rfl⟩
  obtain ⟨-, same, -, -, runs⟩ := scan_relisted twins twinsReversed twins_relisted ⟨Path.dot⟩
  exact ⟨twins_relisted, takes, isSome_get?_of_source source,
    congrArg (Dictionary.get? · "\ufffd/.py") same, runs .values takes .lenient _ _⟩

end FileSystem

end DefTally
