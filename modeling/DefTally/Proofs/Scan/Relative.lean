import DefTally.Proofs.Path.Places
import DefTally.Proofs.Scan.Keys

/-!
# Relative keys

What is left of a path below a root is a part of its own text (`Remainder`), and joined to the root it
has the components of the path again (`Remainder.components_join`): the key is undone by joining.
Whatever a scan comes to has the components of the root at its start, so the keys of a scan are always
such parts, namely the names below the root (`relativeKey_join`).
-/

namespace DefTally

open DefTally.FileSystem DefTally.Text

namespace Path

/-- What is left of a path below a root: nothing if the components are the same, else the text of the
path from the first byte of the first component that the root has not to the last byte of the last one. -/
inductive Remainder (root p : Path) : Bytes → Prop where
  | nothing (same : p.components = root.components) : Remainder root p []
  | part {earlier later : List Span} {first last : Span} {before rest after : Bytes}
      (spans : p.spans = earlier ++ later) (base : earlier.map Span.component = root.components)
      (begins : later.head? = some first) (ends : later.getLast? = some last)
      (whole : p.text = before ++ rest ++ after) (start : first.start = before.length)
      (stop : last.stop = (before ++ rest).length) : Remainder root p rest

variable {root p : Path} {rest : Bytes}

theorem afterPrefix_eq_some_iff {components : List Component} {spans later : List Span} :
    afterPrefix components spans = some later ↔
      ∃ earlier, spans = earlier ++ later ∧ earlier.map Span.component = components := by
  constructor
  · intro found
    induction components generalizing spans with
    | nil =>
      rw [afterPrefix] at found
      exact ⟨[], Option.some.inj found, rfl⟩
    | cons c components ih =>
      cases spans with
      | nil => cases found
      | cons s spans =>
        rw [afterPrefix] at found
        split at found
        · next same =>
          obtain ⟨earlier, rfl, base⟩ := ih found
          exact ⟨s :: earlier, rfl, by rw [List.map_cons, same, base]⟩
        · cases found
  · rintro ⟨earlier, rfl, rfl⟩
    exact afterPrefix_append earlier later

/-- From the start of the first of some components to the stop of the last there is a part of the text. -/
theorem exists_part {earlier later : List Span} {first last : Span} (split : p.spans = earlier ++ later)
    (begins : later.head? = some first) (ends : later.getLast? = some last) :
    ∃ before rest after, p.text = before ++ rest ++ after ∧ first.start = before.length ∧
      last.stop = (before ++ rest).length := by
  have own := listing_spans p
  have ordered := own.ordered.sublist (split ▸ List.sublist_append_right earlier later)
  have inside : last ∈ p.spans := split ▸ List.mem_append_right _ (List.mem_of_getLast? ends)
  have less := own.start_lt_stop last inside
  have fits := ((own.mem_iff last).1 inside).stop_le_length
  have place : first.start ≤ last.stop := by
    obtain ⟨rest, rfl⟩ := List.head?_eq_some_iff.1 begins
    rcases List.mem_cons.1 (List.mem_of_getLast? ends) with rfl | behind
    · exact Nat.le_of_lt less
    · have apart := (List.pairwise_cons.1 ordered).1 last behind
      have := own.start_lt_stop first (split ▸ List.mem_append_right _ List.mem_cons_self)
      omega
  refine ⟨p.text.take first.start, (p.text.take last.stop).drop first.start, p.text.drop last.stop, ?_⟩
  have front : p.text.take first.start = (p.text.take last.stop).take first.start := by
    rw [List.take_take, Nat.min_eq_left place]
  rw [front, List.take_append_drop, List.take_append_drop, List.length_take, List.length_take,
    Nat.min_eq_left fits, Nat.min_eq_left place]
  exact ⟨rfl, rfl, rfl⟩

theorem stripPrefix?_eq_some_iff : p.stripPrefix? root = some ⟨rest⟩ ↔ Remainder root p rest := by
  have cutPart {later : List Span} {first last : Span} {before rest after : Bytes}
      (begins : later.head? = some first) (ends : later.getLast? = some last)
      (whole : p.text = before ++ rest ++ after) (start : first.start = before.length)
      (stop : last.stop = (before ++ rest).length) : p.cut later = ⟨rest⟩ := by
    rw [cut, begins, ends]
    simp only [whole, start, stop, List.take_left, List.drop_left]
  rw [stripPrefix?, Option.map_eq_some_iff]
  simp only [afterPrefix_eq_some_iff]
  constructor
  · rintro ⟨later, ⟨earlier, split, base⟩, same⟩
    cases later with
    | nil =>
      cases same
      refine .nothing ?_
      rw [components, split, List.append_nil, base]
    | cons first later =>
      have ends := List.getLast?_eq_some_getLast (List.cons_ne_nil first later)
      obtain ⟨before, part, after, whole, start, stop⟩ := exists_part split rfl ends
      rw [cutPart rfl ends whole start stop] at same
      cases same
      exact .part split base rfl ends whole start stop
  · rintro (same | ⟨split, base, begins, ends, whole, start, stop⟩)
    · exact ⟨[], ⟨p.spans, (List.append_nil _).symm, same⟩, rfl⟩
    · exact ⟨_, ⟨_, split, base⟩, cutPart begins ends whole start stop⟩

/-- Something is left of a path, if only nothing, where the root is a prefix of it. -/
theorem stripPrefix?_eq_none_iff : p.stripPrefix? root = none ↔ ¬root.components <+: p.components := by
  rw [stripPrefix?, Option.map_eq_none_iff, ← not_iff_not, not_not, ← Ne, Option.ne_none_iff_exists']
  simp only [afterPrefix_eq_some_iff]
  constructor
  · rintro ⟨later, earlier, split, base⟩
    refine ⟨later.map Span.component, ?_⟩
    rw [← base, ← List.map_append, ← split]
    rfl
  · rintro ⟨rest, same⟩
    obtain ⟨earlier, later, split, base, -⟩ := List.map_eq_append_iff.1 same.symm
    exact ⟨later, earlier, split, base⟩

/-! ## Joining what is left -/

theorem isAbsolute_join (filled : root.text ≠ []) (relative : rest.head? ≠ some slash) :
    (root.join rest).isAbsolute = root.isAbsolute := by
  obtain ⟨b, later, text⟩ := List.exists_cons_of_ne_nil filled
  rw [isAbsolute, isAbsolute, join_text_of_head? root relative]
  unfold stem
  split <;> simp [text]

theorem components_join (filled : root.text ≠ []) (relative : rest.head? ≠ some slash) :
    (root.join rest).components = root.components ++
      ((runsFrom root.stem.length rest).filterMap Run.span?).map Span.component := by
  rw [components, spans, isAbsolute_join filled relative, runs, join_text_of_head? root relative,
    filterMap_span?_stem, ← List.append_assoc, List.map_append]
  rfl

theorem join_of_empty (empty : root.text = []) (rest : Bytes) : root.join rest = ⟨rest⟩ := by
  rw [join, empty]
  simp

/-- What is left of a path below a root can be joined to the root. -/
theorem Remainder.components_join (remainder : Remainder root p rest) :
    (root.join rest).components = p.components := by
  cases remainder with
  | nothing same =>
    rw [same]
    by_cases empty : root.text = []
    · rw [join_of_empty empty, components_eq_nil_iff.2 empty]
      rfl
    · rw [Path.components_join empty (by simp), filterMap_span?_runsFrom_nil]
      exact List.append_nil _
  | @part earlier later first last before _ after split base begins ends whole start stop =>
    have lastEnds : p.spans.getLast? = some last := by
      rw [split, List.getLast?_append, ends, Option.some_or]
    have taken : (Path.mk (before ++ rest)).spans = p.spans := by
      rw [← spans_take lastEnds, stop, whole, List.take_left]
    have same : (Path.mk (before ++ rest)).components = p.components :=
      congrArg (List.map Span.component) taken
    by_cases empty : root.text = []
    -- Nothing of the path is stripped, not even a root or a dot at its start.
    · rw [components_eq_nil_iff.2 empty, List.map_eq_nil_iff] at base
      subst base
      rw [List.nil_append] at split
      have atStart := start_of_head? (split ▸ begins)
      cases List.length_eq_zero_iff.1 (start.symm.trans atStart)
      rw [join_of_empty empty, ← same]
      rfl
    -- What is left begins with a name, so that it is appended to the root.
    · obtain ⟨later, rfl⟩ := List.head?_eq_some_iff.1 begins
      have inner : earlier ≠ [] := by
        rintro rfl
        exact empty (components_eq_nil_iff.1 base.symm)
      obtain ⟨relative, inside⟩ := components_drop (taken.trans split) inner
      simp only [start, List.drop_left] at relative inside
      have place : 0 < root.stem.length :=
        Nat.lt_of_lt_of_le (List.length_pos_iff.2 empty) (length_le_stem root)
      rw [Path.components_join empty relative, inside _ place, ← base, ← List.map_cons, ← List.map_append,
        ← split]
      rfl

end Path

open DefTally.Path

/-- A relative key undoes the joining of paths. The components of a path are all that can stand in its
text. If those of the root are not the first ones of the path, the whole path is its key; and if they
are, there is one remainder of the path below the root: it is what the key shows, and joined to the root
it has the components of the path. Of a path that was made by joining names to the root one by one, the
key shows the names with one slash between them. The paths that a scan comes to are all made that way, so
that it never takes a whole path for a key. -/
theorem relativeKey_join (root : Path) :
    (∀ (p : Path) (spans : List Span), Listing p.text spans ↔ spans = p.spans) ∧
    (∀ p : Path, ¬root.components <+: p.components →
      p.stripPrefix? root = none ∧ root.relativeKey p = p.shown) ∧
    (∀ p : Path, root.components <+: p.components → ∃! rest, Remainder root p rest) ∧
    (∀ (p : Path) (rest : Bytes), Remainder root p rest →
      root.relativeKey p = (Path.mk rest).shown ∧ (root.join rest).components = p.components) ∧
    (∀ names : List Bytes, names ≠ [] → (∀ name ∈ names, Legal name) →
      root.relativeKey (root.joinAll names) = (Path.mk (chain names)).shown) ∧
    ∀ fs : FileSystem, ∀ path ∈ fs.matched root, ∃ names : List Bytes, names ≠ [] ∧
      (∀ name ∈ names, Legal name) ∧ path = root.joinAll names ∧
      path.stripPrefix? root = some ⟨chain names⟩ := by
  refine ⟨fun _ _ => listing_iff, fun p other => ?_, fun p shared => ?_, fun p rest remainder => ?_,
    fun names filled legal => relativeKey_joinAll root filled legal, fun fs path visited => ?_⟩
  · have whole := stripPrefix?_eq_none_iff.2 other
    refine ⟨whole, ?_⟩
    rw [relativeKey, whole]
    rfl
  · obtain ⟨⟨rest⟩, left⟩ : ∃ rest, p.stripPrefix? root = some rest := by
      rw [← Option.ne_none_iff_exists', Ne, stripPrefix?_eq_none_iff, not_not]
      exact shared
    refine ⟨rest, stripPrefix?_eq_some_iff.1 left, fun other remainder => ?_⟩
    have left' := stripPrefix?_eq_some_iff.2 remainder
    rw [left] at left'
    cases left'
    rfl
  · refine ⟨?_, remainder.components_join⟩
    rw [relativeKey, stripPrefix?_eq_some_iff.2 remainder]
    rfl
  · rw [matched_eq, List.mem_map] at visited
    obtain ⟨names, inside, rfl⟩ := visited
    obtain ⟨filled, legal⟩ := (mem_sourceNames_iff.1 inside).legal
    exact ⟨names, filled, legal, rfl, stripPrefix?_joinAll root filled legal⟩

/-- The ends of a remainder are trimmed and its middle is not, whatever dots the root ends in; in a scan
the names below the root are left. -/
theorem relativeKey_join_dotted :
    let root : Path := ⟨Utf8.encode "a/.".toList⟩
    let p : Path := ⟨Utf8.encode "./a".toList⟩
    let q : Path := ⟨Utf8.encode "a//./b/./c/.".toList⟩
    ¬root.components <+: p.components ∧ root.relativeKey p = "./a" ∧
    root.components <+: q.components ∧ Remainder root q (Utf8.encode "b/./c".toList) ∧
    root.relativeKey q = "b/./c" ∧ (root.join (Utf8.encode "b/./c".toList)).components = q.components ∧
    root.relativeKey (root.joinAll [Path.dot ++ Path.dotDot, [0xff]]) = ".../�" ∧
    ∀ path ∈ packaged.matched ⟨Path.dot⟩, path.stripPrefix? ⟨Path.dot⟩ ≠ none := by
  intro root p q
  obtain ⟨-, others, -, remainders, names, -⟩ := relativeKey_join root
  have apart : ¬root.components <+: p.components := by decide
  have remainder : Remainder root q (Utf8.encode "b/./c".toList) :=
    stripPrefix?_eq_some_iff.1 (by decide)
  obtain ⟨key, same⟩ := remainders q _ remainder
  have legal : ∀ name ∈ [Path.dot ++ Path.dotDot, [0xff]], Legal name := by
    simp only [List.forall_mem_cons, List.not_mem_nil]
    exact ⟨⟨by decide, by decide, by decide, by decide⟩, ⟨by decide, by decide, by decide, by decide⟩, nofun⟩
  refine ⟨apart, (others p apart).2.trans (by decide), by decide, remainder, key.trans (by decide), same,
    (names _ (by decide) legal).trans (by decide), fun path visited => ?_⟩
  obtain ⟨-, -, -, -, -, scanned⟩ := relativeKey_join ⟨Path.dot⟩
  obtain ⟨_, -, -, -, left⟩ := scanned packaged path visited
  rw [left]
  exact Option.some_ne_none _

end DefTally
