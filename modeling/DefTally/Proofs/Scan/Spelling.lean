import DefTally.Proofs.FileSystem.Extended
import DefTally.Proofs.Log.Apart
import DefTally.Proofs.Scan.Composition

/-!
# The spelling of a root

With slashes and dots put after it a root has the same source files below it, under the same names
(`sourceBelow_extend_iff`), and each of them has the same count (`count_joinAll_extend`), though all
their paths are spelled in another way. So a scan has the same tally, and a run prints the same line
(`scan_extend`). The longer paths must not be too long, which `PathsFit` says.
-/

namespace DefTally

open DefTally.FileSystem DefTally.Json DefTally.Log DefTally.Output DefTally.Text

namespace FileSystem

/-- The path of a visit. -/
def Visit.path : Visit → Path
  | entry path _ => path
  | unreadable path _ => path

/-- No path that a walk from a root makes is too long. -/
structure PathsFit (fs : FileSystem) (root : Path) : Prop where
  own : root.text.length ≤ maxPath
  below : ∀ visit ∈ fs.visitsBelow root, visit.path.text.length ≤ maxPath

section Leads

variable {fs : FileSystem} {root path path' : Path} {top node found : Node} {names : List Bytes}

/-- What names lead to below a root has a path that fits. -/
theorem PathsFit.leads (fit : fs.PathsFit root) (lead : fs.resolve true root = .ok top)
    (leads : top.Leads root names node) : (root.joinAll names).text.length ≤ maxPath := by
  by_cases filled : names = []
  · subst filled
    exact fit.own
  have inside := mem_entriesBelow_iff.2 ⟨top, node, lead, leads, rfl, filled⟩
  have visited := List.mem_map_of_mem (f := Node.located root) inside
  rw [← entries_visitsBelow, List.mem_filterMap] at visited
  obtain ⟨visit, visited, entry⟩ := visited
  cases visit with
  | unreadable path failure => cases entry
  | entry path kind =>
    cases entry
    exact fit.below _ visited

namespace Node.Leads

/-- Names lead on only from an open directory. -/
theorem exists_entries (leads : Leads path node names found) (some : names ≠ []) :
    ∃ entries, node = .directory entries := by
  cases leads with
  | here => exact absurd rfl some
  | through => exact ⟨_, rfl⟩

/-- Names lead to the same below a shorter path. -/
theorem shorter (leads : Leads path' node names found) : ∀ {path : Path}, node.WellNamed →
    path.text.length ≤ path'.text.length → path.stem.length ≤ path'.stem.length →
    Leads path node names found := by
  induction leads with
  | here => exact fun _ _ _ => .here _ _
  | @through path' entries name child _ _ listed entry _ ih =>
    rintro path (_ | ⟨here, inner⟩) text stem
    have legal := here.legal _ entry
    refine .through (Nat.le_trans text listed) entry (ih (inner _ entry) ?_ ?_)
    · rw [Path.join_text path legal, Path.join_text path' legal, List.length_append,
        List.length_append]
      exact Nat.add_le_add_right stem _
    · simp only [Path.stem_join path legal, Path.stem_join path' legal, List.length_append]
      omega

/-- Names lead to the same below another path, if nothing that they lead to below it has a path that
is too long. -/
theorem fitting (leads : Leads path node names found) : ∀ {path' : Path},
    (∀ names found, Leads path' node names found → (path'.joinAll names).text.length ≤ maxPath) →
    Leads path' node names found := by
  induction leads with
  | here => exact fun _ => .here _ _
  | through _ entry _ ih =>
    intro path' fits
    have listed : path'.text.length ≤ maxPath := fits [] _ (.here _ _)
    exact .through listed entry (ih fun names found below => fits _ _ (.through listed entry below))

end Node.Leads

end Leads

/-! ## Sources and their counts -/

/-- A count is that of the bytes that are read. -/
theorem count_congr {fs fs' : FileSystem} {p p' : Path} (same : fs'.read p' = fs.read p) :
    fs'.count p' = fs.count p := by
  rw [count, count, tryCount, tryCount, same]
  cases fs.read p with
  | error cause => rfl
  | ok bytes => cases counted : countSource bytes <;> simp only [counted, Except.mapError]

section Extend

variable {fs : FileSystem} {root : Path} {endings : List Path.Ending} {names : List Bytes}

/-- Slashes and dots after a root make no difference to the source files below it. -/
theorem sourceBelow_extend_iff (filled : root.text ≠ []) (fit : fs.PathsFit (root.extend endings)) :
    fs.SourceBelow (root.extend endings) names ↔ fs.SourceBelow root names := by
  constructor
  · rintro ⟨top, node, name, found', leads', last, suffix, leaf⟩
    have some : names ≠ [] := by rintro rfl; cases last
    obtain ⟨entries, rfl⟩ := leads'.exists_entries some
    have found := (resolve_extend_directory_iff filled fit.own).1 found'
    have wellNamed := resolve_wellNamed found
    have leads := leads'.shorter wellNamed (root.length_le_extend endings)
      (root.length_stem_le_extend endings)
    rw [resolve_joinAll_extend filled some (leads.legal wellNamed) (fit.leads found' leads')] at leaf
    exact ⟨_, node, name, found, leads, last, suffix, leaf⟩
  · rintro ⟨top, node, name, found, leads, last, suffix, leaf⟩
    have some : names ≠ [] := by rintro rfl; cases last
    obtain ⟨entries, rfl⟩ := leads.exists_entries some
    have found' := (resolve_extend_directory_iff filled fit.own).2 found
    have leads' := leads.fitting fun _ _ below => fit.leads found' below
    rw [← resolve_joinAll_extend filled some (leads.legal (resolve_wellNamed found))
      (fit.leads found' leads')] at leaf
    exact ⟨_, node, name, found', leads', last, suffix, leaf⟩

theorem sourceNames_extend (filled : root.text ≠ [])
    (fit : fs.PathsFit (root.extend endings)) :
    fs.sourceNames (root.extend endings) = fs.sourceNames root := by
  have same : (fs.sourceNames (root.extend endings)).Perm (fs.sourceNames root) := by
    refine (List.perm_ext_iff_of_nodup (sourceNames_nodup _ _) (sourceNames_nodup _ _)).2
      fun names => ?_
    rw [mem_sourceNames_iff, mem_sourceNames_iff, sourceBelow_extend_iff filled fit]
  -- Both scans come to the files in ascending order, so it is enough that they come to the same ones.
  exact same.eq_of_pairwise (fun a b _ _ less more => absurd more (List.lt_asymm less))
    (sourceNames_ascend _ _) (sourceNames_ascend _ _)

/-- Slashes and dots after a root make no difference to the count of a source file below it. -/
theorem count_joinAll_extend (filled : root.text ≠ [])
    (fit : fs.PathsFit (root.extend endings)) (source : fs.SourceBelow (root.extend endings) names) :
    fs.count ((root.extend endings).joinAll names) = fs.count (root.joinAll names) := by
  obtain ⟨top, node, name, found, leads, last, -⟩ := source
  have some : names ≠ [] := by rintro rfl; cases last
  refine count_congr ?_
  rw [read, read, resolve_joinAll_extend filled some (leads.legal (resolve_wellNamed found))
    (fit.leads found leads)]

end Extend

/-- The spelling of a root does not matter. With slashes and dots put after it, in any order, a root
has the same tally, as long as no path becomes too long. Its line is the same, and a run prints the
same to every standard output and ends with the same status. -/
theorem scan_extend (fs : FileSystem) (root : Path) (filled : root.text ≠ [])
    (endings : List Path.Ending) (fit : fs.PathsFit (root.extend endings)) :
    fs.scan (root.extend endings) = fs.scan root ∧
    render (fs.scan (root.extend endings)).toValue = render (fs.scan root).toValue ∧
    ∀ parse : ArgumentParser, parse.TakesValues → ∀ reader program environment environment' stdout,
      let spelled := (Invocation.perform parse reader
        ⟨[program, (root.extend endings).text], environment⟩ fs stdout).1
      let plain := (Invocation.perform parse reader ⟨[program, root.text], environment'⟩ fs stdout).1
      spelled.stdout = plain.stdout ∧ spelled.status = plain.status := by
  have scans : fs.scan (root.extend endings) = fs.scan root := by
    rw [scan_eq_ofList, scan_eq_ofList, sourceNames_extend filled fit]
    refine congrArg _ (List.map_congr_left fun names inside => ?_)
    have source := (sourceBelow_extend_iff filled fit).2 ((mem_sourceNames_iff).1 inside)
    rw [entryOf, entryOf, count_joinAll_extend filled fit source]
  refine ⟨scans, by rw [scans], fun parse takes reader program environment environment' stdout => ?_⟩
  have filled' : (root.extend endings).text ≠ [] := List.append_ne_nil_of_left_ne_nil filled _
  have spelled := Invocation.folders_eq_singleton_iff.2 ⟨filled', program, rfl⟩
  have plain := Invocation.folders_eq_singleton_iff.2 ⟨filled, program, rfl⟩
  simp only [Invocation.perform_eq takes, Invocation.run_eq, Invocation.printedOn, spelled, plain,
    Invocation.print_eq, Invocation.printed, scans]
  rcases writeLine (⟨stdout, []⟩ : LineBuffer Sink) (fs.scan root).toValue with ⟨buffer, _ | e⟩ <;>
    exact ⟨rfl, rfl⟩

/-- The root is a link to a directory with a source file. With two slashes and a dot after it, it has
the same tally, and a run on a full device ends with the same status. -/
theorem scan_extend_linked : ArgumentParser.values.TakesValues ∧
    linked.PathsFit (Path.extend ⟨[0x6c]⟩ [.slash, .slashDot]) ∧
    ((linked.scan ⟨[0x6c]⟩).get? ".py").isSome ∧
    linked.scan ⟨[0x6c, 0x2f, 0x2f, 0x2e]⟩ = linked.scan ⟨[0x6c]⟩ ∧
    (Invocation.perform .values .lenient ⟨[programName, [0x6c, 0x2f, 0x2f, 0x2e]], []⟩ linked
      .fullDevice).1.status =
    (Invocation.perform .values .lenient ⟨[programName, [0x6c]], []⟩ linked .fullDevice).1.status := by
  have takes := ArgumentParser.values_takesValues
  have fit : linked.PathsFit (Path.extend ⟨[0x6c]⟩ [.slash, .slashDot]) := by
    have top : linked.resolve true (Path.extend ⟨[0x6c]⟩ [.slash, .slashDot]) =
        .ok (.directory [(sourceSuffix, .file [])]) := rfl
    have single : sortEntries [(sourceSuffix, .file [])] = [(sourceSuffix, .file [])] :=
      List.mergeSort_singleton _
    have visited : linked.visitsBelow (Path.extend ⟨[0x6c]⟩ [.slash, .slashDot]) =
        [.entry ((Path.extend ⟨[0x6c]⟩ [.slash, .slashDot]).join sourceSuffix) .file] := by
      rw [visitsBelow_of_ok top]
      simp only [Node.sorted, Node.sortedAll, single]
      rfl
    refine ⟨by decide, fun visit inside => ?_⟩
    rw [visited, List.mem_singleton] at inside
    subst inside
    decide
  have source : linked.SourceBelow ⟨[0x6c]⟩ [sourceSuffix] :=
    ⟨_, .file [], _, rfl, .through (by decide) List.mem_cons_self (.here _ _), rfl,
      List.suffix_refl _, .inl rfl⟩
  obtain ⟨scans, -, runs⟩ := scan_extend linked ⟨[0x6c]⟩ (by decide) _ fit
  exact ⟨takes, fit, isSome_get?_of_source source, scans,
    (runs .values takes .lenient programName [] [] .fullDevice).2⟩

end FileSystem

end DefTally
