import DefTally.Proofs.DistinctKeys
import DefTally.Proofs.Path.Chain
import DefTally.Proofs.Scan.Sources
import DefTally.Proofs.Text.Cut

/-!
# Keys and files

A scan loses a file only where two files are shown alike, which cannot be where all names are UTF-8:
then the key is the path of its file below the root, letter for letter (`encode_keyOf`), so no two
files have one key (`keyOf_injective`). The ending of a key is that of the name, whatever the other
bytes are (`sourceSuffix_keyOf`).
-/

namespace DefTally

open DefTally.FileSystem DefTally.Text

/-- The file that a finding is about, if it is a source. -/
def Finding.source? : Finding → Option Path
  | source path _ => some path
  | unreadable _ _ => none

namespace Path

theorem suffix_chain {names : List Bytes} {name : Bytes} (last : names.getLast? = some name) :
    name <:+ chain names := by
  induction names with
  | nil => cases last
  | cons first rest ih =>
    by_cases single : rest = []
    · subst single
      cases last
      exact List.suffix_refl _
    · rw [List.getLast?_cons, List.getLast?_eq_some_getLast single, Option.getD_some,
        ← List.getLast?_eq_some_getLast single] at last
      rw [chain_cons first single]
      exact (ih last).trans ((List.suffix_cons _ _).trans (List.suffix_append _ _))

theorem isText_chain {names : List Bytes} (texts : ∀ name ∈ names, Utf8.IsText name) :
    Utf8.IsText (chain names) := by
  induction names with
  | nil => exact ⟨[], rfl⟩
  | cons name rest ih =>
    have first := texts name List.mem_cons_self
    by_cases single : rest = []
    · subst single
      exact first
    · have later := ih fun n h => texts n (List.mem_cons_of_mem _ h)
      have mark : Utf8.IsText [slash] := ⟨['/'], rfl⟩
      rw [chain_cons name single]
      exact first.append (mark.append later)

end Path

namespace FileSystem

/-- The source files that a scan comes to below a root, in the order of the walk. -/
def matched (fs : FileSystem) (root : Path) : List Path :=
  (fs.findings root).filterMap Finding.source?

/-- All names below a root are UTF-8. -/
def TextBelow (fs : FileSystem) (root : Path) : Prop :=
  ∀ top, fs.resolve true root = .ok top →
    top.Throughout fun entries => ∀ e ∈ entries, Utf8.IsText e.1

/-- A scan comes to the files that its names lead to. -/
theorem matched_eq (fs : FileSystem) (root : Path) :
    fs.matched root = (fs.sourceNames root).map root.joinAll := by
  have entries : ∀ visits : List Visit, (visits.filterMap fs.finding?).filterMap Finding.source? =
      ((visits.filterMap Visit.entry?).filter fun e => fs.isSource e.1 e.2).map Prod.fst := by
    intro visits
    induction visits with
    | nil => rfl
    | cons visit rest ih =>
      cases visit with
      | unreadable path failure =>
        simp only [List.filterMap_cons, finding?, Finding.source?, Visit.entry?, ih]
      | entry path kind =>
        by_cases source : fs.isSource path kind = true <;>
          simp [finding?, Finding.source?, Visit.entry?, source, ih]
  rw [matched, findings, entries, entries_visitsBelow, sourceNames, List.filter_map, List.map_map,
    List.map_map]
  rfl

theorem Node.Leads.isText {path : Path} {node found : Node} {names : List Bytes}
    (leads : Node.Leads path node names found)
    (texts : node.Throughout fun entries => ∀ e ∈ entries, Utf8.IsText e.1) :
    ∀ name ∈ names, Utf8.IsText name := by
  induction leads with
  | here => exact fun _ no => absurd no List.not_mem_nil
  | through _ entry _ ih =>
    cases texts with
    | directory here inner =>
      intro name inside
      rcases List.mem_cons.1 inside with rfl | inside
      · exact here _ entry
      · exact ih (inner _ entry) name inside

section Below

variable {fs : FileSystem} {root : Path} {names : List Bytes}

/-- The names that lead to a source file are some, and legal. -/
theorem SourceBelow.legal (source : fs.SourceBelow root names) :
    names ≠ [] ∧ ∀ name ∈ names, Path.Legal name := by
  obtain ⟨top, node, name, found, leads, last, -, -⟩ := source
  refine ⟨?_, leads.legal (resolve_wellNamed found)⟩
  rintro rfl
  cases last

theorem SourceBelow.isText (texts : fs.TextBelow root) (source : fs.SourceBelow root names) :
    ∀ name ∈ names, Utf8.IsText name := by
  obtain ⟨top, node, name, found, leads, -, -, -⟩ := source
  exact leads.isText (texts top found)

/-- The key of names that are UTF-8 has the bytes of their chain. -/
theorem encode_keyOf (texts : ∀ name ∈ names, Utf8.IsText name) :
    Utf8.encode (keyOf names).toList = Path.chain names := by
  rw [keyOf, String.toList_ofList]
  exact (Path.isText_chain texts).encode_decodeLossy

/-- Where all names are UTF-8, different source files have different keys. -/
theorem keyOf_injective (texts : fs.TextBelow root) {other : List Bytes}
    (source : fs.SourceBelow root names) (source' : fs.SourceBelow root other)
    (same : keyOf names = keyOf other) : names = other := by
  obtain ⟨filled, legal⟩ := source.legal
  obtain ⟨filled', legal'⟩ := source'.legal
  apply Path.chain_injective filled filled' legal legal'
  rw [← encode_keyOf (source.isText texts), same, encode_keyOf (source'.isText texts)]

/-- The key of a source file ends as its name does. -/
theorem sourceSuffix_keyOf (source : fs.SourceBelow root names) :
    ".py".toList <:+ (keyOf names).toList := by
  obtain ⟨-, -, name, -, -, last, suffix, -⟩ := source
  obtain ⟨before, ends⟩ := suffix.trans (Path.suffix_chain last)
  have fresh : Utf8.Fresh sourceSuffix := by
    intro b first
    cases first
    decide
  have shown : (keyOf names).toList = Utf8.decodeLossy (Path.chain names) := String.toList_ofList
  rw [shown, ← ends, Utf8.decodeLossy_append before fresh]
  exact ⟨_, rfl⟩

theorem sourceNames_nodup (fs : FileSystem) (root : Path) : (fs.sourceNames root).Nodup := by
  refine (sourceNames_ascend fs root).imp fun {a b} less same => ?_
  rw [same] at less
  exact List.lt_irrefl _ less

theorem keys_nodup_of_text (texts : fs.TextBelow root) :
    ((fs.sourceNames root).map keyOf).Nodup := by
  refine List.Nodup.map_on (fun names source other source' same => ?_) (sourceNames_nodup fs root)
  exact keyOf_injective texts (mem_sourceNames_iff.1 source)
    (mem_sourceNames_iff.1 source') same

/-- The keys of the entries that a scan makes. -/
theorem keys_entryOf (names : List (List Bytes)) :
    (names.map (fs.entryOf root)).map Prod.fst = names.map keyOf := by
  rw [List.map_map]
  rfl

/-- What a scan maps keys to, where all names are UTF-8: each key is that of one file. -/
theorem scan_get?_of_text (texts : fs.TextBelow root) {key : String} {n : Nat} :
    (fs.scan root).get? key = some n ↔
      ∃ names, fs.SourceBelow root names ∧ keyOf names = key ∧ fs.count (root.joinAll names) = n := by
  have distinct := keys_nodup_of_text texts
  rw [← keys_entryOf] at distinct
  rw [scan_eq_ofList, Dictionary.get?_ofList_of_nodup distinct, List.mem_map]
  simp only [mem_sourceNames_iff, entryOf, Prod.mk.injEq]

/-- Every key of a scan is the key of a source file below the root. -/
theorem exists_source_of_get? {key : String} {n : Nat}
    (found : (fs.scan root).get? key = some n) :
    ∃ names, fs.SourceBelow root names ∧ keyOf names = key := by
  rw [scan_eq_ofList, Dictionary.get?_ofList_eq_some_iff] at found
  obtain ⟨before, after, split, -⟩ := found
  have inside : (key, n) ∈ (fs.sourceNames root).map (fs.entryOf root) :=
    split ▸ List.mem_append_right _ List.mem_cons_self
  obtain ⟨names, source, same⟩ := List.mem_map.1 inside
  exact ⟨names, mem_sourceNames_iff.1 source, congrArg Prod.fst same⟩

end Below

/-- No file is lost or merged, and every key leads back to its file. A scan has at most as many keys
as it comes to source files, and just as many if these are shown differently by their names below
the root. So it is where all names are UTF-8; and there every key is names with one slash between
them, and joined to the root it is the path of the file that was counted. Every key ends as the
names of sources do, whatever the names are. -/
theorem scan_size_and_keys (fs : FileSystem) (root : Path) :
    fs.matched root = (fs.sourceNames root).map root.joinAll ∧
    (fs.scan root).size ≤ (fs.matched root).length ∧
    ((fs.scan root).size = (fs.matched root).length ↔ ((fs.sourceNames root).map keyOf).Nodup) ∧
    (∀ key n, (fs.scan root).get? key = some n → ".py".toList <:+ key.toList) ∧
    (fs.TextBelow root →
      (fs.scan root).size = (fs.matched root).length ∧
      ∀ key n, (fs.scan root).get? key = some n → ∃ names : List Bytes,
        names ≠ [] ∧ (∀ name ∈ names, Path.Legal name) ∧
        Utf8.encode key.toList = Path.chain names ∧ key.toList.head? ≠ some '/' ∧
        n = fs.count (root.join (Utf8.encode key.toList)) ∧
        root.join (Utf8.encode key.toList) = root.joinAll names ∧ names ∈ fs.sourceNames root) := by
  have matched := matched_eq fs root
  have length : (fs.matched root).length = ((fs.sourceNames root).map (fs.entryOf root)).length := by
    rw [matched, List.length_map, List.length_map]
  have size : (fs.scan root).size = (fs.matched root).length ↔
      ((fs.sourceNames root).map keyOf).Nodup := by
    rw [scan_eq_ofList, length, Dictionary.size_ofList_eq_iff, keys_entryOf]
  refine ⟨matched, ?_, size, fun key n found => ?_, fun texts => ⟨?_, fun key n found => ?_⟩⟩
  · rw [scan_eq_ofList, length]
    exact Dictionary.size_ofList_le _
  · obtain ⟨names, source, rfl⟩ := exists_source_of_get? found
    exact sourceSuffix_keyOf source
  · exact size.2 (keys_nodup_of_text texts)
  · obtain ⟨names, source, rfl, rfl⟩ := (scan_get?_of_text texts).1 found
    obtain ⟨filled, legal⟩ := source.legal
    have bytes := encode_keyOf (source.isText texts)
    have path : root.join (Utf8.encode (keyOf names).toList) = root.joinAll names := by
      rw [bytes, Path.join_chain root filled legal]
    refine ⟨names, filled, legal, bytes, fun slashed => ?_, by rw [path], path,
      mem_sourceNames_iff.2 source⟩
    obtain ⟨rest, key⟩ := List.head?_eq_some_iff.1 slashed
    rw [key] at bytes
    exact Path.chain_head?_ne_slash legal (by rw [← bytes]; rfl)

/-- A directory with a file and a directory of the same name but for its ending, in which there is
another file. -/
def packaged : FileSystem where
  root := .directory [([0x61, 0x2e, 0x70, 0x79], .file []), ([0x61], .directory [(sourceSuffix, .file [])])]
  working := []
  wellNamed := by decide
  hasWorking := by decide

theorem packaged_textBelow : packaged.TextBelow ⟨Path.dot⟩ := by
  intro top found
  cases found
  decide

/-- Two files that are shown alike make one key; in a file system whose names are all UTF-8, every
file makes its own. -/
theorem scan_size_and_keys_packaged :
    (shownAlike.scan ⟨Path.dot⟩).size ≠ (shownAlike.matched ⟨Path.dot⟩).length ∧
    packaged.TextBelow ⟨Path.dot⟩ ∧
    (packaged.scan ⟨Path.dot⟩).size = (packaged.matched ⟨Path.dot⟩).length := by
  refine ⟨fun same => ?_, packaged_textBelow, ?_⟩
  · have distinct := (scan_size_and_keys shownAlike ⟨Path.dot⟩).2.2.1.1 same
    have first : [[0xff, 0x2e, 0x70, 0x79]] ∈ shownAlike.sourceNames ⟨Path.dot⟩ :=
      mem_sourceNames_iff.2 ⟨_, _, _, rfl,
        .through (by decide) List.mem_cons_self (.here _ _), rfl, by decide, .inl rfl⟩
    have second : [[0xe9, 0x2e, 0x70, 0x79]] ∈ shownAlike.sourceNames ⟨Path.dot⟩ := by
      refine mem_sourceNames_iff.2 ⟨_, _, _, rfl,
        .through (by decide) (List.mem_cons_of_mem _ List.mem_cons_self) (.here _ _), rfl, by decide,
        .inr ⟨rfl, fun target no => ?_⟩⟩
      cases no
    exact absurd (List.inj_on_of_nodup_map distinct first second (by decide)) (by decide)
  · exact ((scan_size_and_keys packaged ⟨Path.dot⟩).2.2.2.2 packaged_textBelow).1

end FileSystem

end DefTally
