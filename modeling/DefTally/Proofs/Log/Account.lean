import DefTally.Proofs.Command.Contract
import DefTally.Proofs.Count.Blocks
import DefTally.Proofs.Log.Filter
import DefTally.Proofs.Scan.Sources
import Mathlib.Data.List.Sort

/-!
# The log accounts for every file

`Owed` says which events a scan owes to what is below its root, without walking. These are the events
that it raises (`mem_account_iff_owed`), in the order of the walk (`account_ascends`), and the log has
the lines of those that pass the directives of its setting (`perform_accounts`). The line of an event
is spelled out in `Told`.
-/

namespace DefTally

open DefTally.FileSystem DefTally.Json DefTally.Log DefTally.Output DefTally.Source DefTally.Text

namespace Log

/-! ## Lines -/

/-- The words for why a file has no count. -/
inductive ErrorTold : CountError → String → Prop where
  | unreadable (path : Path) (cause : Failure) : ErrorTold (.unreadable path cause)
      ("Failed to read file '" ++ path.shown ++ "': " ++ cause.message)
  | nullByte (path : Path) : ErrorTold (.nullByte path)
      ("File '" ++ path.shown ++ "' contains a null byte")
  | malformed (path : Path) : ErrorTold (.malformed path)
      ("File '" ++ path.shown ++ "' has a syntax error")
  | noTree (path : Path) : ErrorTold (.noTree path)
      ("Parser produced no tree for '" ++ path.shown ++ "'")

/-- How an event is told: its level, the part of the program that it comes from, and its line in the
log. -/
inductive Told : Event → Level → String → String → Prop where
  | counted (path : Path) (n : Nat) : Told (.counted path n) .trace "funcscan::core::counter"
      ("TRACE counted functions path=" ++ path.shown ++ " count=" ++ toString n ++ "\n")
  | countedAsZero (path : Path) {error : CountError} {words : String} (told : ErrorTold error words) :
      Told (.countedAsZero path error) .debug "funcscan::core::counter"
        ("DEBUG file counted as zero path=" ++ path.shown ++ " error=" ++ words ++ "\n")
  | entrySkipped (root path : Path) (failure : Failure) :
      Told (.entrySkipped root path failure) .debug "funcscan::core::scanner"
        ("DEBUG skipping unreadable entry root=" ++ root.shown ++ " error=IO error for operation on " ++
          path.shown ++ ": " ++ failure.message ++ "\n")
  | argumentsRejected : Told .argumentsRejected .debug "funcscan::cli"
      ("DEBUG unrecognised arguments error=error: a value is " ++
        "required for '[FOLDERS]...' but none was supplied\n\n")

theorem errorTold_message (error : CountError) : ErrorTold error error.message := by
  cases error with
  | unreadable path cause => exact .unreadable path cause
  | nullByte path => exact .nullByte path
  | malformed path => exact .malformed path
  | noTree path => exact .noTree path

theorem line_entrySkipped (root path : Path) (failure : Failure) :
    (Event.entrySkipped root path failure).line = "DEBUG skipping unreadable entry root=" ++
      root.shown ++ " error=IO error for operation on " ++ path.shown ++ ": " ++ failure.message ++
      "\n" := by
  have line : (Event.entrySkipped root path failure).line = "DEBUG" ++ " " ++
      ("skipping unreadable entry root=" ++ root.shown ++ " error=IO error for operation on " ++
        path.shown ++ ": " ++ failure.message) ++ "\n" := rfl
  have head : "DEBUG skipping unreadable entry root=" =
      "DEBUG" ++ (" " ++ "skipping unreadable entry root=") := by decide
  rw [line, head]
  simp only [String.append_assoc]

theorem line_countedAsZero (path : Path) (error : CountError) :
    (Event.countedAsZero path error).line =
      "DEBUG file counted as zero path=" ++ path.shown ++ " error=" ++ error.message ++ "\n" := by
  have line : (Event.countedAsZero path error).line = "DEBUG" ++ " " ++
      ("file counted as zero path=" ++ path.shown ++ " error=" ++ error.message) ++ "\n" := rfl
  have head : "DEBUG file counted as zero path=" =
      "DEBUG" ++ (" " ++ "file counted as zero path=") := by decide
  rw [line, head]
  simp only [String.append_assoc]

theorem line_counted (path : Path) (n : Nat) : (Event.counted path n).line =
    "TRACE counted functions path=" ++ path.shown ++ " count=" ++ toString n ++ "\n" := by
  have line : (Event.counted path n).line = "TRACE" ++ " " ++
      ("counted functions path=" ++ path.shown ++ " count=" ++ toString n) ++ "\n" := rfl
  have head : "TRACE counted functions path=" =
      "TRACE" ++ (" " ++ "counted functions path=") := by decide
  rw [line, head]
  simp only [String.append_assoc]

/-- Every event is told in this way. -/
theorem told_line (e : Event) : Told e e.level e.target e.line := by
  cases e with
  | argumentsRejected =>
    have line : Event.argumentsRejected.line = "DEBUG unrecognised arguments error=error: a value is " ++
      "required for '[FOLDERS]...' but none was supplied\n\n" := by decide +kernel
    rw [line]
    exact .argumentsRejected
  | entrySkipped root path failure =>
    rw [line_entrySkipped]
    exact .entrySkipped root path failure
  | countedAsZero path error =>
    rw [line_countedAsZero]
    exact .countedAsZero path (errorTold_message error)
  | counted path n =>
    rw [line_counted]
    exact .counted path n

end Log

namespace FileSystem

/-! ## What is owed to entries -/

/-- The event that a scan of a root owes to what names lead to: to a source file one that tells its
count or why it has none, and to a directory that cannot be listed one that says why, be it that its
path is too long or that it is shut. If the root leads nowhere, that is all there is to tell. -/
inductive Owed (fs : FileSystem) (root : Path) : List Bytes → Event → Prop where
  | counted {names : List Bytes} {n : Nat} (source : fs.SourceBelow root names)
      (count : fs.tryCount (root.joinAll names) = .ok n) :
      Owed fs root names (.counted (root.joinAll names) n)
  | countedAsZero {names : List Bytes} {error : CountError} (source : fs.SourceBelow root names)
      (failed : fs.tryCount (root.joinAll names) = .error error) :
      Owed fs root names (.countedAsZero (root.joinAll names) error)
  | tooLong {names : List Bytes} {top node : Node} (found : fs.resolve true root = .ok top)
      (leads : top.Leads root names node) (directory : node.kind = .directory)
      (long : maxPath < (root.joinAll names).text.length) :
      Owed fs root names (.entrySkipped root (root.joinAll names) .nameTooLong)
  | shut {names : List Bytes} {top : Node} {failure : Failure} (found : fs.resolve true root = .ok top)
      (leads : top.Leads root names (.shut true failure))
      (short : (root.joinAll names).text.length ≤ maxPath) :
      Owed fs root names (.entrySkipped root (root.joinAll names) failure)
  | nowhere {failure : Failure} (refused : fs.resolve true root = .error failure) :
      Owed fs root [] (.entrySkipped root root failure)

/-- What keeps a directory from being listed, if anything does. -/
theorem obstacle?_eq_some_iff {path : Path} {node : Node} {failure : Failure} :
    node.obstacle? path = some failure ↔
      node.kind = .directory ∧ maxPath < path.text.length ∧ failure = .nameTooLong ∨
        path.text.length ≤ maxPath ∧ node = .shut true failure := by
  cases node with
  | file | link | special => simp [Node.obstacle?, Node.kind]
  | directory entries => simp [Node.obstacle?, Node.kind, eq_comm]
  | shut isDirectory cause =>
    cases isDirectory with
    | false => simp [Node.obstacle?, Node.kind]
    | true =>
      by_cases long : maxPath < path.text.length
      · simp [Node.obstacle?, Node.kind, long, Nat.not_le.2 long, eq_comm]
      · simp [Node.obstacle?, Node.kind, long, Nat.not_lt.1 long]

theorem kind_of_obstacle? {path : Path} {node : Node} {failure : Failure}
    (hindered : node.obstacle? path = some failure) : node.kind = .directory := by
  obtain ⟨directory, -⟩ | ⟨-, rfl⟩ := obstacle?_eq_some_iff.1 hindered
  · exact directory
  · rfl

/-- The finding of a scan at an entry below its root, if there is one. -/
def findingAt? (fs : FileSystem) (root : Path) (e : List Bytes × Node) : Option Finding :=
  if fs.isSource (root.joinAll e.1) e.2.kind then
    some (.source (root.joinAll e.1) (fs.tryCount (root.joinAll e.1)))
  else (e.2.obstacle? (root.joinAll e.1)).map (.unreadable (root.joinAll e.1))

/-- The finding of a scan at its root, if there is one. -/
def findingAtRoot? (fs : FileSystem) (root : Path) : Option Finding :=
  match fs.resolve true root with
  | .ok top => (top.obstacle? root).map (.unreadable root)
  | .error failure => some (.unreadable root failure)

/-- What a scan owes, with the names that lead to what it is owed to. -/
def account (fs : FileSystem) (root : Path) : List (List Bytes × Event) :=
  ((fs.findingAtRoot? root).map fun finding => ([], .ofFinding root finding)).toList ++
    (fs.entriesBelow root).filterMap fun e =>
      (fs.findingAt? root e).map fun finding => (e.1, .ofFinding root finding)

theorem filterMap_obstructed (fs : FileSystem) (path : Path) (node : Node) :
    (node.obstructed path).filterMap fs.finding? =
      ((node.obstacle? path).map (Finding.unreadable path)).toList := by
  rw [Node.obstructed]
  cases node.obstacle? path <;> rfl

theorem filterMap_visitsAt (fs : FileSystem) (root : Path) (e : List Bytes × Node) :
    (Node.visitsAt root e).filterMap fs.finding? = (fs.findingAt? root e).toList := by
  rw [Node.visitsAt, List.filterMap_cons, filterMap_obstructed, findingAt?, finding?]
  by_cases source : fs.isSource (root.joinAll e.1) e.2.kind = true
  · -- a source file is no directory, so that nothing is said of it besides
    have leaf : e.2.obstacle? (root.joinAll e.1) = none := by
      refine Option.eq_none_iff_forall_ne_some.2 fun failure hindered => ?_
      simp [isSource, kind_of_obstacle? hindered] at source
    simp [source, leaf]
  · simp [source]

/-- The events of a scan are its account. -/
theorem events_eq_account (fs : FileSystem) (root : Path) :
    (fs.findings root).map (.ofFinding root) = (fs.account root).map Prod.snd := by
  rw [findings, account, findingAtRoot?, entriesBelow]
  cases found : fs.resolve true root with
  | error failure =>
    rw [visitsBelow_of_error found]
    rfl
  | ok top =>
    rw [visitsBelow_of_ok found, Node.visitsInside_eq, List.filterMap_append, filterMap_obstructed,
      Node.obstacle?_sorted, List.filterMap_flatMap, List.map_append, List.map_append,
      List.map_filterMap]
    simp only [filterMap_visitsAt, Option.map_map, Function.comp_def]
    congr 1
    · cases top.obstacle? root <;> rfl
    · induction top.sorted.trailInside root with
      | nil => rfl
      | cons e rest ih =>
        rw [List.flatMap_cons, List.map_append, ih, List.filterMap_cons]
        cases fs.findingAt? root e <;> rfl

section Account

variable {fs : FileSystem} {root : Path} {names : List Bytes} {event : Event}

theorem mem_account_iff : (names, event) ∈ fs.account root ↔
    (names = [] ∧ ∃ finding, fs.findingAtRoot? root = some finding ∧ .ofFinding root finding = event) ∨
      ∃ node finding, (names, node) ∈ fs.entriesBelow root ∧
        fs.findingAt? root (names, node) = some finding ∧ .ofFinding root finding = event := by
  rw [account, List.mem_append, Option.mem_toList, List.mem_filterMap]
  refine or_congr ?_ ?_
  · rw [Option.map_eq_some_iff]
    constructor
    · rintro ⟨finding, found, same⟩
      cases same
      exact ⟨rfl, finding, found, rfl⟩
    · rintro ⟨rfl, finding, found, rfl⟩
      exact ⟨finding, found, rfl⟩
  · constructor
    · rintro ⟨⟨_, node⟩, inside, owed⟩
      obtain ⟨finding, found, same⟩ := Option.map_eq_some_iff.1 owed
      cases same
      exact ⟨node, finding, inside, found, rfl⟩
    · rintro ⟨node, finding, inside, found, rfl⟩
      exact ⟨(names, node), inside, by rw [found]; rfl⟩

/-- An account in the order of the walk is determined by what is in it. -/
theorem eq_of_ascending {a b : List (List Bytes × Event)} (first : a.Pairwise fun x y => x.1 < y.1)
    (second : b.Pairwise fun x y => x.1 < y.1) (same : ∀ x, x ∈ a ↔ x ∈ b) : a = b := by
  have : Std.Antisymm fun x y : List Bytes × Event => x.1 < y.1 :=
    ⟨fun _ _ less greater => absurd greater (List.lt_asymm less)⟩
  have : Std.Irrefl fun x y : List Bytes × Event => x.1 < y.1 := ⟨fun _ => List.lt_irrefl _⟩
  exact first.eq_of_mem_iff second same

/-- A directory that cannot be listed is owed an event that says so. -/
theorem owed_of_obstacle {top node : Node} {failure : Failure} (found : fs.resolve true root = .ok top)
    (leads : top.Leads root names node) (hindered : node.obstacle? (root.joinAll names) = some failure) :
    fs.Owed root names (.entrySkipped root (root.joinAll names) failure) := by
  obtain ⟨directory, long, rfl⟩ | ⟨short, rfl⟩ := obstacle?_eq_some_iff.1 hindered
  · exact .tooLong found leads directory long
  · exact .shut found leads short

theorem owed_of_mem_account (inside : (names, event) ∈ fs.account root) : fs.Owed root names event := by
  obtain ⟨rfl, finding, atRoot, rfl⟩ | ⟨node, finding, entry, found, rfl⟩ := mem_account_iff.1 inside
  · rw [findingAtRoot?] at atRoot
    split at atRoot
    · next top found =>
      obtain ⟨failure, hindered, rfl⟩ := Option.map_eq_some_iff.1 atRoot
      have owed := owed_of_obstacle found (.here root top) hindered
      rwa [Path.joinAll_nil] at owed
    · next failure refused =>
      cases atRoot
      exact .nowhere refused
  · rw [findingAt?] at found
    split at found
    · next source =>
      cases found
      have source : fs.SourceBelow root names := mem_sourceNames_iff.1
        (List.mem_map.2 ⟨_, List.mem_filter.2 ⟨entry, source⟩, rfl⟩)
      cases counted : fs.tryCount (root.joinAll names) with
      | ok n => exact .counted source counted
      | error error => exact .countedAsZero source counted
    · obtain ⟨failure, hindered, rfl⟩ := Option.map_eq_some_iff.1 found
      obtain ⟨top, node, lead, leads, rfl, -⟩ := mem_entriesBelow_iff.1 entry
      rw [Node.obstacle?_sorted] at hindered
      exact owed_of_obstacle lead leads hindered

/-- What is said of a directory that cannot be listed is in the account. -/
theorem mem_account_of_obstacle {top node : Node} {failure : Failure}
    (found : fs.resolve true root = .ok top) (leads : top.Leads root names node)
    (hindered : node.obstacle? (root.joinAll names) = some failure) :
    (names, .entrySkipped root (root.joinAll names) failure) ∈ fs.account root := by
  refine mem_account_iff.2 ?_
  cases names with
  | nil =>
    cases leads
    rw [Path.joinAll_nil] at hindered ⊢
    exact .inl ⟨rfl, .unreadable root failure, by rw [findingAtRoot?, found]; simp [hindered], rfl⟩
  | cons name rest =>
    have entry := mem_entriesBelow_iff.2 ⟨top, node, found, leads, rfl, List.cons_ne_nil _ _⟩
    refine .inr ⟨node.sorted, .unreadable _ failure, entry, ?_, rfl⟩
    have noSource : ¬ fs.isSource (root.joinAll (name :: rest)) node.sorted.kind = true := by
      simp [isSource, kind_of_obstacle? hindered]
    rw [findingAt?, if_neg noSource, Node.obstacle?_sorted, hindered]
    rfl

theorem mem_account_of_owed (owed : fs.Owed root names event) : (names, event) ∈ fs.account root := by
  have ofSource : fs.SourceBelow root names →
      (names, .ofFinding root (.source (root.joinAll names) (fs.tryCount (root.joinAll names)))) ∈
        fs.account root := by
    intro source
    obtain ⟨⟨_, node⟩, listed, rfl⟩ := List.mem_map.1 (mem_sourceNames_iff.2 source)
    obtain ⟨entry, isSource⟩ := List.mem_filter.1 listed
    exact mem_account_iff.2 (.inr ⟨node, _, entry, if_pos isSource, rfl⟩)
  cases owed with
  | counted source count =>
    have owed := ofSource source
    rwa [count] at owed
  | countedAsZero source failed =>
    have owed := ofSource source
    rwa [failed] at owed
  | tooLong found leads directory long =>
    exact mem_account_of_obstacle found leads (obstacle?_eq_some_iff.2 (.inl ⟨directory, long, rfl⟩))
  | shut found leads short =>
    exact mem_account_of_obstacle found leads (obstacle?_eq_some_iff.2 (.inr ⟨short, rfl⟩))
  | nowhere refused =>
    exact mem_account_iff.2 (.inl ⟨rfl, .unreadable root _, by rw [findingAtRoot?, refused], rfl⟩)

/-- A scan raises the events that it owes, and no others. -/
theorem mem_account_iff_owed : (names, event) ∈ fs.account root ↔ fs.Owed root names event :=
  ⟨owed_of_mem_account, mem_account_of_owed⟩

/-- The account of a scan goes along the walk: its names ascend. -/
theorem account_ascends (fs : FileSystem) (root : Path) :
    (fs.account root).Pairwise fun a b => a.1 < b.1 := by
  have below : ((fs.entriesBelow root).filterMap fun e => (fs.findingAt? root e).map fun finding =>
      (e.1, Event.ofFinding root finding)).Pairwise fun a b => a.1 < b.1 := by
    rw [List.pairwise_filterMap]
    refine (entriesBelow_ascend fs root).imp fun {a b} less x first y second => ?_
    obtain ⟨_, -, rfl⟩ := Option.map_eq_some_iff.1 first
    obtain ⟨_, -, rfl⟩ := Option.map_eq_some_iff.1 second
    exact less
  rw [account]
  cases fs.findingAtRoot? root with
  | none => exact below
  | some finding =>
    refine List.pairwise_cons.2 ⟨fun x inside => ?_, below⟩
    obtain ⟨e, entry, owed⟩ := List.mem_filterMap.1 inside
    obtain ⟨_, -, rfl⟩ := Option.map_eq_some_iff.1 owed
    obtain ⟨name, rest, same⟩ := List.exists_cons_of_ne_nil (legal_of_mem_entriesBelow entry).1
    rw [same]
    exact List.nil_lt_cons name rest

end Account

end FileSystem

namespace Invocation

/-- The log accounts for every file. A scan raises the events that it owes to what is below its root,
each once and in the order of the walk, and no others. Of these the log has the lines of those that pass
the directives of its setting, in their order, and nothing else. -/
theorem perform_accounts {parse : ArgumentParser} (takes : parse.TakesValues) (reader : SettingReader)
    (fs : FileSystem) (program folder : Bytes) (filled : folder ≠ [])
    (environment : List (String × Bytes)) (stdout : Sink) :
    ∃ account : List (List Bytes × Event),
      (account.Pairwise fun a b => a.1 < b.1) ∧
      (∀ names event, (names, event) ∈ account ↔ fs.Owed ⟨folder⟩ names event) ∧
      (∀ event, Told event event.level event.target event.line) ∧
      ∀ parts directives, Parts parts directives →
        environment.lookup logVariable = some (Utf8.encode (withCommas parts)) →
        ∃ passes : Event → Bool, (∀ e, passes e = true ↔ Passes directives e) ∧
          (perform parse reader ⟨[program, folder], environment⟩ fs stdout).1.Prints stdout
            (fs.scan ⟨folder⟩).toValue.line 0 (some ⟨folder⟩)
            (String.join (((account.map Prod.snd).filter passes).map Event.line)) := by
  have named : folders [program, folder] = [⟨folder⟩] :=
    folders_eq_singleton_iff.2 ⟨filled, program, rfl⟩
  have raised : fs.events [program, folder] = (fs.account ⟨folder⟩).map Prod.snd := by
    rw [← events_eq_account]
    simp [FileSystem.events, folders?, filled]
  refine ⟨fs.account ⟨folder⟩, account_ascends fs _, fun _ _ => mem_account_iff_owed, told_line,
    fun parts directives reads set => ?_⟩
  obtain ⟨shows, ofSetting, passes⟩ := ofSetting_withCommas reads reader
  refine ⟨shows, passes, ?_⟩
  rw [perform_eq takes]
  have prints := run_prints reader ⟨[program, folder], environment⟩ fs stdout
  have log : Logging.log ⟨"", shows⟩ (fs.events [program, folder]) =
      linesOf shows (fs.events [program, folder]) := String.empty_append
  rw [named, logging, set, ofSetting, log, raised] at prints
  exact prints

/-! ### A folder with something of everything -/

/-- The names of a file that can be counted, of one that cannot, and of a shut directory. -/
def goodName : Bytes := Utf8.encode "a.py".toList

@[inherit_doc goodName]
def badName : Bytes := Utf8.encode "b.py".toList

@[inherit_doc goodName]
def shutName : Bytes := Utf8.encode "d".toList

/-- A shut directory, a file that holds a null byte and one that defines a function. -/
def mixedEntries : List (Bytes × Node) :=
  [(shutName, .shut true .permissionDenied), (badName, .file [0]),
   (goodName, .file (Utf8.encode (textOf [.nested 7, .loop])))]

/-- A directory with these entries. -/
def mixed : FileSystem where
  root := .directory mixedEntries
  working := []
  wellNamed := by decide
  hasWorking := by decide

/-- What is owed to the entries, in the order of their names. -/
def mixedAccount : List (List Bytes × Event) :=
  let below (name : Bytes) : Path := (⟨Path.dot⟩ : Path).joinAll [name]
  [([goodName], .counted (below goodName) 1),
   ([badName], .countedAsZero (below badName) (.nullByte (below badName))),
   ([shutName], .entrySkipped ⟨Path.dot⟩ (below shutName) .permissionDenied)]

section Mixed

variable {names : List Bytes} {node : Node} {event : Event}

theorem resolve_mixed : mixed.resolve true ⟨Path.dot⟩ = .ok (.directory mixedEntries) := by rfl

theorem tryCount_goodName : mixed.tryCount ((⟨Path.dot⟩ : Path).joinAll [goodName]) = .ok 1 :=
  (tryCount_of_blocks (by rfl)).trans rfl

theorem tryCount_badName : mixed.tryCount ((⟨Path.dot⟩ : Path).joinAll [badName]) =
    .error (.nullByte ((⟨Path.dot⟩ : Path).joinAll [badName])) := by rfl

/-- Names lead to the directory or to one of its entries. -/
theorem leads_mixed (leads : (Node.directory mixedEntries).Leads ⟨Path.dot⟩ names node) :
    names = [] ∧ node = .directory mixedEntries ∨
      ∃ name, names = [name] ∧ (name, node) ∈ mixedEntries := by
  cases leads with
  | here => exact .inl ⟨rfl, rfl⟩
  | @through _ _ name child _ names _ entry further =>
    have leaf : ∀ e ∈ mixedEntries, ∀ entries, e.2 ≠ .directory entries := by simp [mixedEntries]
    cases further with
    | here => exact .inr ⟨name, rfl, entry⟩
    | through => exact absurd rfl (leaf _ entry _)

theorem leads_of_mem_mixed {name : Bytes} (entry : (name, node) ∈ mixedEntries) :
    (Node.directory mixedEntries).Leads ⟨Path.dot⟩ [name] node :=
  .through (by decide) entry (.here _ _)

theorem sourceBelow_mixed_iff :
    mixed.SourceBelow ⟨Path.dot⟩ names ↔ names = [goodName] ∨ names = [badName] := by
  constructor
  · rintro ⟨top, node, name, found, leads, last, suffix, -⟩
    cases resolve_mixed.symm.trans found
    obtain ⟨rfl, -⟩ | ⟨_, rfl, entry⟩ := leads_mixed leads
    · cases last
    · cases last
      simp only [mixedEntries, List.mem_cons, List.not_mem_nil, or_false, Prod.mk.injEq] at entry
      rcases entry with ⟨rfl, -⟩ | ⟨rfl, -⟩ | ⟨rfl, -⟩
      · exact absurd suffix (by decide)
      · exact .inr rfl
      · exact .inl rfl
  · have source {name : Bytes} {content : Bytes} (entry : (name, .file content) ∈ mixedEntries)
        (suffix : sourceSuffix <:+ name) : mixed.SourceBelow ⟨Path.dot⟩ [name] :=
      ⟨_, _, name, resolve_mixed, leads_of_mem_mixed entry, rfl, suffix, .inl rfl⟩
    rintro (rfl | rfl)
    · exact source (.tail _ (.tail _ (.head _))) (by decide)
    · exact source (.tail _ (.head _)) (by decide)

theorem owed_mixed_iff : mixed.Owed ⟨Path.dot⟩ names event ↔ (names, event) ∈ mixedAccount := by
  constructor
  · intro owed
    cases owed with
    | counted source count =>
      obtain rfl | rfl := sourceBelow_mixed_iff.1 source
      · cases tryCount_goodName.symm.trans count
        exact .head _
      · cases tryCount_badName.symm.trans count
    | countedAsZero source failed =>
      obtain rfl | rfl := sourceBelow_mixed_iff.1 source
      · cases tryCount_goodName.symm.trans failed
      · cases tryCount_badName.symm.trans failed
        exact .tail _ (.head _)
    | tooLong found leads directory long =>
      cases resolve_mixed.symm.trans found
      obtain ⟨rfl, -⟩ | ⟨_, rfl, entry⟩ := leads_mixed leads
      · exact absurd long (by decide)
      · have short : ∀ e ∈ mixedEntries, ((⟨Path.dot⟩ : Path).joinAll [e.1]).text.length ≤ maxPath := by
          decide
        exact absurd long (Nat.not_lt.2 (short _ entry))
    | shut found leads short =>
      cases resolve_mixed.symm.trans found
      obtain ⟨rfl, same⟩ | ⟨_, rfl, entry⟩ := leads_mixed leads
      · cases same
      · simp only [mixedEntries, List.mem_cons, List.not_mem_nil, or_false, Prod.mk.injEq,
          Node.shut.injEq, reduceCtorEq, and_false] at entry
        obtain ⟨rfl, -, rfl⟩ := entry
        exact .tail _ (.tail _ (.head _))
    | nowhere refused => cases resolve_mixed.symm.trans refused
  · intro listed
    simp only [mixedAccount, List.mem_cons, List.not_mem_nil, or_false, Prod.mk.injEq] at listed
    rcases listed with ⟨rfl, rfl⟩ | ⟨rfl, rfl⟩ | ⟨rfl, rfl⟩
    · exact .counted (sourceBelow_mixed_iff.2 (.inl rfl)) tryCount_goodName
    · exact .countedAsZero (sourceBelow_mixed_iff.2 (.inr rfl)) tryCount_badName
    · exact .shut resolve_mixed (leads_of_mem_mixed (.head _)) (by decide)

end Mixed

/-- With the setting `trace` all of it is told. With two directives of which the longer one decides about
the files, and which names its level by a number, only the broken file is. -/
theorem perform_accounts_mixed :
    let stderr (setting : String) : String := (perform .values .lenient ⟨[programName, Path.dot],
      [(logVariable, Utf8.encode setting.toList)]⟩ mixed .unlimited).1.stderr
    ArgumentParser.values.TakesValues ∧
    stderr "trace" = "TRACE counted functions path=./a.py count=1\n" ++
      "DEBUG file counted as zero path=./b.py error=File './b.py' contains a null byte\n" ++
      "DEBUG skipping unreadable entry root=. error=IO error for operation on ./d: " ++
      "Permission denied (os error 13)\n" ∧
    stderr "off,funcscan::core::counter=04" =
      "DEBUG file counted as zero path=./b.py error=File './b.py' contains a null byte\n" := by
  intro stderr
  have takes := ArgumentParser.values_takesValues
  have logged {setting : String} {parts : List (List Char)} {directives : List Directive}
      (reads : Parts parts directives) (written : withCommas parts = setting.toList) :
      stderr setting = String.join
        (((mixedAccount.map Prod.snd).filter (Log.Filter.mk directives).shows).map Event.line) := by
    obtain ⟨account, ascend, owed, -, logs⟩ := perform_accounts takes .lenient mixed programName Path.dot
      (by decide) [(logVariable, Utf8.encode setting.toList)] .unlimited
    obtain ⟨passes, spec, prints⟩ := logs parts directives reads (by rw [written]; rfl)
    have whole : account = mixedAccount :=
      eq_of_ascending ascend (by decide) fun x => (owed x.1 x.2).trans owed_mixed_iff
    have shown : passes = (Log.Filter.mk directives).shows := by
      funext e
      exact Bool.eq_iff_iff.2 ((spec e).trans (shows_iff_passes ⟨directives⟩ e).symm)
    rw [← whole, ← shown]
    exact (prints.accepted ⟨fun _ no => (by cases no), rfl⟩).2.2
  have trace : Named "trace".toList (.upTo .trace) :=
    .word (by decide : ("trace", Threshold.upTo .trace) ∈ thresholds) (by decide)
  have off : Named "off".toList .off :=
    .word (by decide : ("off", Threshold.off) ∈ thresholds) (by decide)
  have debug : Named "04".toList (.upTo .debug) :=
    .number (by rfl : thresholds[4]? = some ("debug", _)) 1
  have counter : ProperTarget "funcscan::core::counter".toList := isTarget_iff.1 (by decide +kernel)
  refine ⟨takes, ?_, ?_⟩
  · rw [logged (.directive (.level trace) .nil) rfl]
    decide +kernel
  · rw [logged (.directive (.level off) (.directive (.targetLevel counter debug) .nil)) rfl]
    decide +kernel

end Invocation

end DefTally
