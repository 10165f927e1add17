import DefTally.Proofs.FileSystem.Along
import DefTally.Proofs.Scan.Keys
import Mathlib.Data.List.Perm.Basic

/-!
# Scans of subdirectories

What a scan finds below a directory is what a scan of that directory finds, with the names that lead
to the directory before it (`sourceBelow_joinAll_iff`). So a tally is put together from the files in
the root itself and the tallies of its directories (`scan_composes`).
-/

namespace DefTally.FileSystem

open DefTally.Text

variable {fs : FileSystem} {root : Path} {top : Node} {names later : List Bytes}

theorem stored_of_descend (stored : fs.StorableBelow root) {node : Node}
    (found : fs.resolve true root = .ok top) (at_ : top.descend names = some node) :
    ∀ name ∈ names, Storable name :=
  Node.names_of_descend (fun all => all) (stored top found) at_

/-- A directory below a root is what its path leads to. -/
theorem resolve_joinAll_directory (stored : fs.StorableBelow root) (found : fs.resolve true root = .ok top)
    {sub : Node} (at_ : top.descend names = some sub) (directory : sub.kind = .directory)
    (short : (root.joinAll names).text.length ≤ maxPath) : fs.resolve true (root.joinAll names) = .ok sub :=
  resolve_joinAll found at_ (by simp [directory]) ((resolve_wellNamed found).names at_)
    (stored_of_descend stored found at_) short

/-- The source files below a directory below a root are those that a scan of the directory comes
to. -/
theorem sourceBelow_joinAll_iff (stored : fs.StorableBelow root) (found : fs.resolve true root = .ok top)
    {sub : Node} (at_ : top.descend names = some sub) (directory : sub.kind = .directory)
    (some : later ≠ []) :
    fs.SourceBelow (root.joinAll names) later ↔ fs.SourceBelow root (names ++ later) := by
  have leads : ∀ node, top.Leads root (names ++ later) node ↔
      (root.joinAll names).text.length ≤ maxPath ∧ sub.Leads (root.joinAll names) later node :=
    fun _ => Node.leads_append_iff some (resolve_wellNamed found) at_
  have last : (names ++ later).getLast? = later.getLast? := by
    rw [List.getLast?_append, List.getLast?_eq_some_getLast some, Option.some_or]
  constructor
  · rintro ⟨top', node, name, found', leads', last', suffix, leaf⟩
    have short := length_le_of_resolve found'
    rw [resolve_joinAll_directory stored found at_ directory short, Except.ok.injEq] at found'
    subst found'
    refine ⟨top, node, name, found, (leads node).2 ⟨short, leads'⟩, last.trans last', suffix, ?_⟩
    rw [Path.joinAll_append]
    exact leaf
  · rintro ⟨top', node, name, found', leads', last', suffix, leaf⟩
    rw [found, Except.ok.injEq] at found'
    subst found'
    obtain ⟨short, below⟩ := (leads node).1 leads'
    rw [Path.joinAll_append] at leaf
    exact ⟨_, node, name, resolve_joinAll_directory stored found at_ directory short, below,
      last.symm.trans last', suffix, leaf⟩

/-- The names below a directory below a root are UTF-8 where those below the root are. -/
theorem TextBelow.joinAll (texts : fs.TextBelow root) (stored : fs.StorableBelow root)
    (found : fs.resolve true root = .ok top) {sub : Node} (at_ : top.descend names = some sub)
    (directory : sub.kind = .directory) : fs.TextBelow (root.joinAll names) := by
  intro top' found'
  have short := length_le_of_resolve found'
  rw [resolve_joinAll_directory stored found at_ directory short, Except.ok.injEq] at found'
  exact found' ▸ (texts top found).descend at_

/-! ## Keys -/

/-- A slash in what is shown of names is a slash between them. -/
theorem keyOf_append {a b : List Bytes} (filledA : a ≠ []) (filledB : b ≠ []) :
    keyOf (a ++ b) = keyOf a ++ "/" ++ keyOf b := by
  have fresh : Utf8.Fresh (Path.slash :: Path.chain b) := by
    intro byte first
    cases first
    decide
  have mark : Utf8.decodeLossy (Path.slash :: Path.chain b) = '/' :: Utf8.decodeLossy (Path.chain b) := by
    rw [Utf8.decodeLossy, Utf8.segment, Utf8.segmentFrom_one (by decide)]
    rfl
  apply String.toList_inj.1
  simp only [keyOf, String.toList_append, String.toList_ofList]
  rw [Path.chain_append filledA filledB, Utf8.decodeLossy_append _ fresh, mark]
  simp

/-- A key that begins with what is shown of names and a slash belongs to names that begin with
these. -/
theorem exists_of_keyOf_eq {all : List Bytes} {key : String} (filledAll : all ≠ []) (filled : names ≠ [])
    (legalAll : ∀ name ∈ all, Path.Legal name) (legal : ∀ name ∈ names, Path.Legal name)
    (textAll : ∀ name ∈ all, Utf8.IsText name) (text : ∀ name ∈ names, Utf8.IsText name)
    (same : keyOf all = keyOf names ++ "/" ++ key) :
    ∃ later, later ≠ [] ∧ all = names ++ later ∧ keyOf later = key := by
  have chain : Path.chain all = Path.chain names ++ Path.slash :: Utf8.encode key.toList := by
    rw [← encode_keyOf textAll, same, ← encode_keyOf text, String.toList_append,
      String.toList_append, Utf8.encode_append, Utf8.encode_append, List.append_assoc]
    rfl
  obtain ⟨later, some, rfl, rest⟩ := Path.exists_of_chain_eq filledAll filled legalAll legal chain
  refine ⟨later, some, rfl, ?_⟩
  rw [keyOf, rest, Utf8.decodeLossy_encode, String.ofList_toList]

/-- What a tally has for a key below a directory, the tally of the directory has for the rest of the
key. -/
theorem scan_get?_below (stored : fs.StorableBelow root)
    (texts : fs.TextBelow root) (found : fs.resolve true root = .ok top)
    {sub : Node} (at_ : top.descend names = some sub) (directory : sub.kind = .directory)
    (filled : names ≠ []) (key : String) :
    (fs.scan root).get? (keyOf names ++ "/" ++ key) = (fs.scan (root.joinAll names)).get? key := by
  have legal := (resolve_wellNamed found).names at_
  have text := Node.names_of_descend (fun all => all) (texts top found) at_
  apply Option.ext
  intro n
  rw [scan_get?_of_text texts, scan_get?_of_text (texts.joinAll stored found at_ directory)]
  constructor
  · rintro ⟨all, source, same, count⟩
    obtain ⟨filledAll, legalAll⟩ := source.legal
    obtain ⟨later, some, rfl, rest⟩ :=
      exists_of_keyOf_eq filledAll filled legalAll legal (source.isText texts) text same
    refine ⟨later, (sourceBelow_joinAll_iff stored found at_ directory some).2 source, rest, ?_⟩
    rw [← Path.joinAll_append]
    exact count
  · rintro ⟨later, source, rfl, count⟩
    have some := source.legal.1
    refine ⟨names ++ later, (sourceBelow_joinAll_iff stored found at_ directory some).1 source,
      keyOf_append filled some, ?_⟩
    rw [Path.joinAll_append]
    exact count

/-! ## Entries of the root -/

/-- The names of the source files among the entries of a directory at a path. -/
def sourcesAmong (fs : FileSystem) (path : Path) (entries : List (Bytes × Node)) : List (List Bytes) :=
  (entries.filter fun e => fs.isSource (path.join e.1) e.2.kind).map fun e => [e.1]

/-- The names that lead to source files through the directories among the entries of a directory at a
path. -/
def sourcesThrough (fs : FileSystem) (path : Path) (entries : List (Bytes × Node)) :
    List (List Bytes) :=
  (entries.filter fun e => e.2.kind = .directory).flatMap fun e =>
    (fs.sourceNames (path.join e.1)).map (e.1 :: ·)

theorem distinct_names {entries : List (Bytes × Node)} (named : (Node.directory entries).WellNamed) :
    (entries.map Prod.fst).Nodup := by
  cases named with
  | directory here _ => exact here.distinct

theorem descend_entry {entries : List (Bytes × Node)} (distinct : (entries.map Prod.fst).Nodup)
    {name : Bytes} {node : Node} (inside : (name, node) ∈ entries) :
    (Node.directory entries).descend [name] = some node := by
  rw [Node.descend, lookup_of_mem distinct inside]
  rfl

/-- The names that lead to an entry of a directory, or through a directory among the entries. -/
theorem leads_directory_iff {path : Path} {entries : List (Bytes × Node)} {name : Bytes}
    {node : Node} (listed : path.text.length ≤ maxPath) :
    (Node.directory entries).Leads path [name] node ↔ (name, node) ∈ entries := by
  constructor
  · intro leads
    cases leads with
    | through _ inside further =>
      cases further
      exact inside
  · exact fun inside => .through listed inside (.here _ _)

theorem mem_sourcesAmong_iff {entries : List (Bytes × Node)}
    (found : fs.resolve true root = .ok (.directory entries)) :
    names ∈ fs.sourcesAmong root entries ↔ fs.SourceBelow root names ∧ ∃ name, names = [name] := by
  have listed := length_le_of_resolve found
  have legal : ∀ e ∈ entries, ∀ n ∈ [e.1], Path.Legal n := by
    cases resolve_wellNamed found with
    | directory here _ => exact fun e inside n own => List.mem_singleton.1 own ▸ here.legal e inside
  rw [sourcesAmong, List.mem_map]
  constructor
  · rintro ⟨⟨name, node⟩, inside, rfl⟩
    obtain ⟨entry, source⟩ := List.mem_filter.1 inside
    have leaf := (isSource_joinAll rfl (legal _ entry)).1 source
    exact ⟨⟨_, node, name, found, (leads_directory_iff listed).2 entry, rfl, leaf⟩, name, rfl⟩
  · rintro ⟨⟨top, node, last, found', leads, isLast, leaf⟩, name, rfl⟩
    rw [found, Except.ok.injEq] at found'
    subst found'
    have entry := (leads_directory_iff listed).1 leads
    have source := (isSource_joinAll isLast (legal _ entry)).2 leaf
    exact ⟨(name, node), List.mem_filter.2 ⟨entry, source⟩, rfl⟩

theorem mem_sourcesThrough_iff (stored : fs.StorableBelow root)
    {entries : List (Bytes × Node)} (found : fs.resolve true root = .ok (.directory entries)) :
    names ∈ fs.sourcesThrough root entries ↔
      fs.SourceBelow root names ∧ ∃ name later, later ≠ [] ∧ names = name :: later := by
  have distinct := distinct_names (resolve_wellNamed found)
  have below : ∀ name sub, (name, sub) ∈ entries → sub.kind = .directory → ∀ later, later ≠ [] →
      (fs.SourceBelow (root.join name) later ↔ fs.SourceBelow root (name :: later)) := by
    intro name sub entry directory later some
    exact sourceBelow_joinAll_iff stored found (descend_entry distinct entry) directory some
  rw [sourcesThrough, List.mem_flatMap]
  constructor
  · rintro ⟨⟨name, node⟩, inside, mapped⟩
    obtain ⟨entry, directory⟩ := List.mem_filter.1 inside
    obtain ⟨later, source, rfl⟩ := List.mem_map.1 mapped
    have source := mem_sourceNames_iff.1 source
    have some := source.legal.1
    have directory := of_decide_eq_true directory
    exact ⟨(below name node entry directory later some).1 source, name, later, some, rfl⟩
  · rintro ⟨source, name, later, some, rfl⟩
    have leads := source
    obtain ⟨top, node, last, found', leads, -⟩ := leads
    rw [found, Except.ok.injEq] at found'
    subst found'
    cases leads with
    | through _ entry further =>
      cases further with
      | here => exact absurd rfl some
      | through _ _ _ =>
        refine ⟨(name, .directory _), List.mem_filter.2 ⟨entry, rfl⟩, List.mem_map.2 ⟨_, ?_, rfl⟩⟩
        exact mem_sourceNames_iff.2 ((below name _ entry rfl _ some).2 source)

theorem nodup_sourcesAmong {entries : List (Bytes × Node)} (distinct : (entries.map Prod.fst).Nodup) :
    (fs.sourcesAmong root entries).Nodup := by
  have same : fs.sourcesAmong root entries =
      ((entries.filter fun e => fs.isSource (root.join e.1) e.2.kind).map Prod.fst).map ([·]) := by
    rw [List.map_map]
    rfl
  rw [same]
  exact (distinct.sublist (List.filter_sublist.map _)).map fun _ _ => List.singleton_inj.1

theorem nodup_sourcesThrough {entries : List (Bytes × Node)}
    (distinct : (entries.map Prod.fst).Nodup) : (fs.sourcesThrough root entries).Nodup := by
  refine List.nodup_flatMap.2 ⟨fun e _ => ?_, ?_⟩
  · exact (sourceNames_nodup fs _).map (List.cons_injective)
  · refine ((List.pairwise_map.1 distinct).sublist List.filter_sublist).imp ?_
    intro a b differ names first second
    obtain ⟨_, -, rfl⟩ := List.mem_map.1 first
    obtain ⟨_, -, same⟩ := List.mem_map.1 second
    exact differ (List.cons.inj same).1.symm

/-- The source files below a root are those in the root and those below its directories. -/
theorem sourceNames_perm (stored : fs.StorableBelow root)
    {entries : List (Bytes × Node)} (found : fs.resolve true root = .ok (.directory entries)) :
    (fs.sourceNames root).Perm (fs.sourcesAmong root entries ++ fs.sourcesThrough root entries) := by
  have distinct := distinct_names (resolve_wellNamed found)
  refine (List.perm_ext_iff_of_nodup (sourceNames_nodup fs root) ?_).2 fun names => ?_
  · refine List.nodup_append.2 ⟨nodup_sourcesAmong distinct, nodup_sourcesThrough distinct, ?_⟩
    rintro names among _ through rfl
    obtain ⟨-, name, rfl⟩ := (mem_sourcesAmong_iff found).1 among
    obtain ⟨-, _, later, some, same⟩ := (mem_sourcesThrough_iff stored found).1 through
    exact some (List.cons.inj same).2.symm
  · rw [List.mem_append, mem_sourcesAmong_iff found, mem_sourcesThrough_iff stored found,
      mem_sourceNames_iff]
    constructor
    · intro source
      obtain ⟨filled, -⟩ := source.legal
      match names, filled with
      | [name], _ => exact .inl ⟨source, name, rfl⟩
      | name :: next :: more, _ => exact .inr ⟨source, name, next :: more, List.cons_ne_nil _ _, rfl⟩
    · rintro (⟨source, -⟩ | ⟨source, -⟩)
      · exact source
      · exact source

/-- No source file is below a link that leads to a directory, nor is the link one. -/
theorem not_sourceBelow_of_link {entries : List (Bytes × Node)}
    (found : fs.resolve true root = .ok (.directory entries)) {name : Bytes} {target : Path}
    (link : (name, .link target) ∈ entries) {sub : Node}
    (leadsTo : fs.resolve true (root.join name) = .ok sub) (directory : sub.kind = .directory) :
    ¬ fs.SourceBelow root (name :: later) := by
  rintro ⟨top, node, last, found', leads, -, -, leaf⟩
  rw [found, Except.ok.injEq] at found'
  subst found'
  have distinct := distinct_names (resolve_wellNamed found)
  have onlyLink : ∀ other, (name, other) ∈ entries → other = .link target := fun other inside =>
    Option.some.inj ((lookup_of_mem distinct inside).symm.trans (lookup_of_mem distinct link))
  cases leads with
  | through _ inside further =>
    cases onlyLink _ inside
    cases further
    rcases leaf with file | ⟨-, noDirectory⟩
    · cases file
    · exact noDirectory sub leadsTo directory

/-- A link that leads to a directory makes no key of a tally, nor does anything below it. -/
theorem scan_get?_link (texts : fs.TextBelow root) {entries : List (Bytes × Node)}
    (found : fs.resolve true root = .ok (.directory entries)) {name : Bytes} {target : Path}
    (link : (name, .link target) ∈ entries) {sub : Node}
    (leadsTo : fs.resolve true (root.join name) = .ok sub) (directory : sub.kind = .directory) :
    (fs.scan root).get? (keyOf [name]) = none ∧
      ∀ key, (fs.scan root).get? (keyOf [name] ++ "/" ++ key) = none := by
  have at_ := descend_entry (distinct_names (resolve_wellNamed found)) link
  have filled : [name] ≠ [] := List.cons_ne_nil _ _
  have legal := (resolve_wellNamed found).names at_
  have text := Node.names_of_descend (fun all => all) (texts _ found) at_
  have noSource : ∀ later, ¬ fs.SourceBelow root (name :: later) :=
    fun _ => not_sourceBelow_of_link found link leadsTo directory
  refine ⟨Option.eq_none_iff_forall_ne_some.2 fun n got => ?_,
    fun key => Option.eq_none_iff_forall_ne_some.2 fun n got => ?_⟩
  all_goals
    obtain ⟨all, source, same, -⟩ := (scan_get?_of_text texts).1 got
    obtain ⟨filledAll, legalAll⟩ := source.legal
    have textAll := source.isText texts
  · have chain : Path.chain all = Path.chain [name] := by
      rw [← encode_keyOf textAll, same, encode_keyOf text]
    cases Path.chain_injective filledAll filled legalAll legal chain
    exact noSource [] source
  · obtain ⟨later, -, rfl, -⟩ := exists_of_keyOf_eq filledAll filled legalAll legal textAll text same
    exact noSource later source

/-- A tally has the key of every source file. -/
theorem isSome_get?_of_source (source : fs.SourceBelow root names) :
    ((fs.scan root).get? (keyOf names)).isSome := by
  have listed : keyOf names ∈ ((fs.sourceNames root).map (fs.entryOf root)).map Prod.fst := by
    rw [keys_entryOf]
    exact List.mem_map_of_mem (mem_sourceNames_iff.2 source)
  rw [← Dictionary.mem_keys_ofList, ← scan_eq_ofList] at listed
  obtain ⟨⟨_, n⟩, inside, rfl⟩ := List.mem_map.1 listed
  exact Option.isSome_iff_exists.2 ⟨n, Dictionary.mem_toList_iff.1 inside⟩

theorem toList_scan_perm (texts : fs.TextBelow root) :
    (fs.scan root).toList.Perm ((fs.sourceNames root).map (fs.entryOf root)) := by
  have distinct := keys_nodup_of_text texts
  rw [← keys_entryOf] at distinct
  rw [scan_eq_ofList]
  exact Dictionary.toList_ofList_perm distinct

/-- The entries of the files below a directory are those of a scan of the directory, under its
name. -/
theorem entries_below_perm (stored : fs.StorableBelow root)
    (texts : fs.TextBelow root) (found : fs.resolve true root = .ok top) {name : Bytes}
    {sub : Node} (at_ : top.descend [name] = some sub) (directory : sub.kind = .directory) :
    (((fs.sourceNames (root.join name)).map (name :: ·)).map (fs.entryOf root)).Perm
      ((fs.scan (root.join name)).toList.map fun entry => (keyOf [name] ++ "/" ++ entry.1, entry.2)) := by
  have textsBelow : fs.TextBelow (root.join name) := texts.joinAll stored found at_ directory
  refine List.Perm.trans (.of_eq ?_) ((toList_scan_perm textsBelow).map _).symm
  rw [List.map_map, List.map_map]
  refine List.map_congr_left fun names inside => Prod.ext ?_ rfl
  have some := (mem_sourceNames_iff.1 inside).legal.1
  exact keyOf_append (List.cons_ne_nil name []) some

/-- Scans compose over subdirectories. Where all names below a root are UTF-8, the tally of the root
has the source files among its entries, each under its name, and the tally of each of its
directories, under the name of the directory; nothing else, and each once. So it has for a key below
a directory what the tally of that directory has for the rest of the key, however deep the directory
is. A link that leads to a directory adds nothing to it, though the scan of the link itself comes to
the files of the directory. -/
theorem scan_composes (fs : FileSystem) (root : Path)
    (stored : fs.StorableBelow root) (texts : fs.TextBelow root) (entries : List (Bytes × Node))
    (found : fs.resolve true root = .ok (.directory entries)) :
    (fs.scan root).toList.Perm
      (((entries.filter fun e => fs.isSource (root.join e.1) e.2.kind).map fun e =>
          (keyOf [e.1], fs.count (root.join e.1))) ++
        (entries.filter fun e => e.2.kind = .directory).flatMap fun e =>
          (fs.scan (root.join e.1)).toList.map fun entry =>
            (keyOf [e.1] ++ "/" ++ entry.1, entry.2)) ∧
    (∀ names sub, names ≠ [] → (Node.directory entries).descend names = some sub →
      sub.kind = .directory → ∀ key, (fs.scan root).get? (keyOf names ++ "/" ++ key) =
        (fs.scan (root.joinAll names)).get? key) ∧
    (∀ name target sub, (name, .link target) ∈ entries →
      fs.resolve true (root.join name) = .ok sub → sub.kind = .directory →
      (fs.scan root).get? (keyOf [name]) = none ∧
      (∀ key, (fs.scan root).get? (keyOf [name] ++ "/" ++ key) = none) ∧
      ∀ names content last, sub.Leads (root.join name) names (.file content) →
        names.getLast? = some last → sourceSuffix <:+ last →
        ((fs.scan (root.join name)).get? (keyOf names)).isSome) := by
  have distinct := distinct_names (resolve_wellNamed found)
  refine ⟨?_, fun names sub filled at_ directory =>
    scan_get?_below stored texts found at_ directory filled,
    fun name target sub link leadsTo directory => ⟨?_, fun key => ?_, ?_⟩⟩
  · refine (toList_scan_perm texts).trans (((sourceNames_perm stored found).map _).trans ?_)
    rw [List.map_append, sourcesAmong, List.map_map]
    refine List.Perm.append_left _ ?_
    rw [sourcesThrough, List.map_flatMap]
    refine List.Perm.flatMap_left _ fun e inside => ?_
    obtain ⟨entry, directory⟩ := List.mem_filter.1 inside
    exact entries_below_perm stored texts found (descend_entry distinct entry)
      (of_decide_eq_true directory)
  · exact (scan_get?_link texts found link leadsTo directory).1
  · exact (scan_get?_link texts found link leadsTo directory).2 key
  · intro names content last leads isLast suffix
    exact isSome_get?_of_source ⟨_, _, last, leadsTo, leads, isLast, suffix, .inl rfl⟩

/-- A directory with a file, and a link to it. -/
def linked : FileSystem where
  root := .directory [([0x64], .directory [(sourceSuffix, .file [])]), ([0x6c], .link ⟨[0x64]⟩)]
  working := []
  wellNamed := by decide
  hasWorking := by decide

theorem linked_storableBelow : linked.StorableBelow ⟨Path.dot⟩ := by
  intro top found
  cases found
  decide

theorem linked_textBelow : linked.TextBelow ⟨Path.dot⟩ := by
  intro top found
  cases found
  decide

/-- The file is in the tally under the name of its directory, and not under that of the link; in the
tally of the link it is. -/
theorem scan_composes_linked : linked.StorableBelow ⟨Path.dot⟩ ∧ linked.TextBelow ⟨Path.dot⟩ ∧
    (linked.scan ⟨Path.dot⟩).get? "d/.py" = (linked.scan ⟨[0x2e, 0x2f, 0x64]⟩).get? ".py" ∧
    (linked.scan ⟨Path.dot⟩).get? "l/.py" = none ∧
    ((linked.scan ⟨[0x2e, 0x2f, 0x6c]⟩).get? ".py").isSome := by
  obtain ⟨-, below, link⟩ := scan_composes linked ⟨Path.dot⟩ linked_storableBelow linked_textBelow _ rfl
  obtain ⟨-, notBelow, descends⟩ := link [0x6c] ⟨[0x64]⟩ (.directory [(sourceSuffix, .file [])])
    (List.mem_cons_of_mem _ List.mem_cons_self) rfl rfl
  refine ⟨linked_storableBelow, linked_textBelow, below [[0x64]] _ (List.cons_ne_nil _ _) rfl rfl ".py",
    notBelow ".py", ?_⟩
  exact descends [sourceSuffix] [] sourceSuffix
    (.through (by decide) List.mem_cons_self (.here _ _)) rfl (List.suffix_refl _)

end DefTally.FileSystem
