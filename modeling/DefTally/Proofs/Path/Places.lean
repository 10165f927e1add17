import DefTally.Proofs.Path.Joined
import Mathlib.Data.List.Basic

/-!
# Where components stand

A path has the components that `Stands` lets it have, each where it stands (`mem_spans_iff`), and in
their order (`spans_ordered`). They are told from the runs between the slashes, and where a run
stands its path falls apart into the text before it, with the runs there, and the text after it
(`runsFrom_eq_append_cons_iff`). So a path that is cut off after its last component keeps its components
(`spans_take`), and from a name in it that is not the first component the text has the components from
there on (`components_drop`).
-/

namespace DefTally.Path

open DefTally.Text

/-! ## Runs -/

/-- A text has no slash, or goes on after its first one. -/
@[elab_as_elim]
theorem slash_induction {motive : Bytes → Prop} (text : Bytes)
    (whole : ∀ text, slash ∉ text → motive text)
    (slashed : ∀ a b, slash ∉ a → motive b → motive (a ++ slash :: b)) : motive text := by
  by_cases inside : slash ∈ text
  · obtain ⟨a, b, split, first⟩ := List.eq_append_cons_of_mem inside
    have shorter : b.length < text.length := by
      rw [split, List.length_append, List.length_cons]
      omega
    rw [split]
    exact slashed a b first (slash_induction b whole slashed)
  · exact whole text inside
termination_by text.length
decreasing_by exact shorter

/-- What can stand before a run, and the runs in it. -/
inductive Before (start : Nat) : Bytes → List Run → Prop where
  | nothing : Before start [] []
  | slashed (text : Bytes) : Before start (text ++ [slash]) (runsFrom start text)

/-- What can stand after a run, and the runs in it. -/
inductive After (stop : Nat) : Bytes → List Run → Prop where
  | nothing : After stop [] []
  | slashed (text : Bytes) : After stop (slash :: text) (runsFrom (stop + 1) text)

theorem exists_before_iff {start : Nat} {before : Bytes} :
    (∃ runs, Before start before runs) ↔ before = [] ∨ before.getLast? = some slash := by
  rw [List.getLast?_eq_some_iff]
  constructor
  · rintro ⟨_, _ | text⟩
    · exact .inl rfl
    · exact .inr ⟨text, rfl⟩
  · rintro (rfl | ⟨text, rfl⟩)
    · exact ⟨_, .nothing⟩
    · exact ⟨_, .slashed text⟩

theorem exists_after_iff {stop : Nat} {after : Bytes} :
    (∃ runs, After stop after runs) ↔ after = [] ∨ after.head? = some slash := by
  rw [List.head?_eq_some_iff]
  constructor
  · rintro ⟨_, _ | text⟩
    · exact .inl rfl
    · exact .inr ⟨text, rfl⟩
  · rintro (rfl | ⟨text, rfl⟩)
    · exact ⟨_, .nothing⟩
    · exact ⟨_, .slashed text⟩

theorem runsFrom_slashed {a : Bytes} (slashless : slash ∉ a) (start : Nat) (b : Bytes) :
    runsFrom start (a ++ slash :: b) = ⟨start, a⟩ :: runsFrom (start + a.length + 1) b := by
  rw [runsFrom_append_slash, runsFrom_slashless start slashless]
  rfl

/-- A run and a slash more in front of what stands before a run. -/
theorem Before.slash_cons {a before : Bytes} {start : Nat} {earlier : List Run} (slashless : slash ∉ a)
    (runsBefore : Before (start + a.length + 1) before earlier) :
    Before start (a ++ slash :: before) (⟨start, a⟩ :: earlier) := by
  cases runsBefore with
  | nothing =>
    rw [← runsFrom_slashless start slashless]
    exact .slashed a
  | slashed text =>
    rw [← runsFrom_slashed slashless, ← List.cons_append, ← List.append_assoc]
    exact .slashed _

theorem After.runsFrom_eq {after : Bytes} {r : Run} {later : List Run} (slashless : slash ∉ r.bytes)
    (runsAfter : After (r.start + r.bytes.length) after later) :
    runsFrom r.start (r.bytes ++ after) = r :: later := by
  cases runsAfter with
  | nothing => rw [List.append_nil, runsFrom_slashless r.start slashless]
  | slashed text => exact runsFrom_slashed slashless r.start text

/-- Before a run and after it are the runs before and after. -/
theorem runsFrom_eq_append_cons_iff {start : Nat} {text : Bytes} {earlier later : List Run} {r : Run} :
    runsFrom start text = earlier ++ r :: later ↔
      ∃ before after, text = before ++ (r.bytes ++ after) ∧ slash ∉ r.bytes ∧
        r.start = start + before.length ∧ Before start before earlier ∧
        After (r.start + r.bytes.length) after later := by
  constructor
  · intro split
    -- The run is the one up to the first slash, or one of the text behind it.
    induction text using slash_induction generalizing start earlier with
    | whole text slashless =>
      rw [runsFrom_slashless start slashless] at split
      obtain ⟨rfl, single⟩ := (List.append_eq_singleton_iff.1 split.symm).resolve_right (by simp)
      obtain ⟨rfl, rfl⟩ := List.cons.inj single
      exact ⟨[], [], by simp, slashless, rfl, .nothing, .nothing⟩
    | slashed a b slashless ih =>
      rw [runsFrom_slashed slashless] at split
      cases earlier with
      | nil =>
        obtain ⟨rfl, rfl⟩ := List.cons.inj split
        exact ⟨[], slash :: b, rfl, slashless, rfl, .nothing, .slashed b⟩
      | cons first earlier =>
        obtain ⟨rfl, further⟩ := List.cons.inj split
        obtain ⟨before, after, rfl, slashless', place, runsBefore, runsAfter⟩ := ih further
        refine ⟨a ++ slash :: before, after, by simp, slashless', ?_, runsBefore.slash_cons slashless,
          runsAfter⟩
        rw [place, List.length_append, List.length_cons]
        omega
  · rintro ⟨before, after, rfl, slashless, place, runsBefore, runsAfter⟩
    have here := runsAfter.runsFrom_eq slashless
    cases runsBefore with
    | nothing =>
      rw [place] at here
      exact here
    | slashed text =>
      have next : start + text.length + 1 = r.start := by
        rw [place, List.length_append, List.length_singleton]
        omega
      rw [List.append_assoc, List.singleton_append, runsFrom_append_slash, next, here]

theorem mem_runsFrom_iff {start : Nat} {text : Bytes} {r : Run} :
    r ∈ runsFrom start text ↔ ∃ before after, text = before ++ (r.bytes ++ after) ∧ slash ∉ r.bytes ∧
      r.start = start + before.length ∧ (before = [] ∨ before.getLast? = some slash) ∧
      (after = [] ∨ after.head? = some slash) := by
  constructor
  · intro inside
    obtain ⟨earlier, later, split⟩ := List.append_of_mem inside
    obtain ⟨before, after, whole, slashless, place, runsBefore, runsAfter⟩ :=
      runsFrom_eq_append_cons_iff.1 split
    exact ⟨before, after, whole, slashless, place, exists_before_iff.1 ⟨_, runsBefore⟩,
      exists_after_iff.1 ⟨_, runsAfter⟩⟩
  · rintro ⟨before, after, whole, slashless, place, begins, ends⟩
    obtain ⟨earlier, runsBefore⟩ := exists_before_iff.2 begins
    obtain ⟨later, runsAfter⟩ := exists_after_iff.2 ends
    rw [runsFrom_eq_append_cons_iff.2 ⟨before, after, whole, slashless, place, runsBefore, runsAfter⟩]
    exact List.mem_append_right _ List.mem_cons_self

/-- A run stops before the next one starts. -/
theorem runsFrom_ordered (start : Nat) (text : Bytes) :
    (runsFrom start text).Pairwise fun r r' => r.start + r.bytes.length < r'.start := by
  induction text using slash_induction generalizing start with
  | whole text slashless =>
    rw [runsFrom_slashless start slashless]
    exact List.pairwise_singleton _ _
  | slashed a b slashless ih =>
    rw [runsFrom_slashed slashless]
    refine List.pairwise_cons.2 ⟨fun r inside => ?_, ih _⟩
    obtain ⟨before, -, -, -, place, -⟩ := mem_runsFrom_iff.1 inside
    simp only [place]
    omega

/-! ## Components -/

/-- The text of a component. -/
def Component.text : Component → Bytes
  | root => [slash]
  | current => dot
  | name n => n

/-- Between which texts a component can stand: the root and the dot at the start, a name between slashes
or the ends of the path. A dot is no name. -/
inductive Stands : Bytes → Component → Bytes → Prop where
  | root (after : Bytes) : Stands [] .root after
  | current {after : Bytes} (ends : after = [] ∨ after.head? = some slash) : Stands [] .current after
  | name {before name after : Bytes} (filled : name ≠ []) (slashless : slash ∉ name)
      (notDot : name ≠ dot) (begins : before = [] ∨ before.getLast? = some slash)
      (ends : after = [] ∨ after.head? = some slash) : Stands before (.name name) after

/-- A component has its place in a text. -/
def Span.Within (s : Span) (text : Bytes) : Prop :=
  ∃ before after, text = before ++ (s.component.text ++ after) ∧ Stands before s.component after ∧
    s.start = before.length ∧ s.stop = (before ++ s.component.text).length

theorem Run.span?_eq_some_iff {r : Run} {s : Span} : r.span? = some s ↔
    r = ⟨0, dot⟩ ∧ s = ⟨.current, 0, 1⟩ ∨ (r.bytes ≠ [] ∧ r.bytes ≠ dot) ∧ s = nameSpan r := by
  obtain ⟨start, bytes⟩ := r
  have noDot : dot ≠ [] := by decide
  unfold Run.span? nameSpan
  by_cases filled : bytes = []
  · simp [filled, noDot.symm]
  · by_cases isDot : bytes = dot <;> by_cases atStart : start = 0 <;>
      simp [filled, isDot, atStart, noDot, eq_comm]

/-- The components of a path are all that can stand in it. -/
theorem mem_spans_iff {p : Path} {s : Span} : s ∈ p.spans ↔ s.Within p.text := by
  rw [spans, List.mem_append, List.mem_filterMap]
  constructor
  · rintro (isRoot | ⟨r, inside, span⟩)
    · cases absolute : p.isAbsolute with
      | false => simp [absolute] at isRoot
      | true =>
        rw [absolute, if_pos rfl, List.mem_singleton] at isRoot
        obtain ⟨after, text⟩ := List.head?_eq_some_iff.1 (of_decide_eq_true absolute)
        subst isRoot
        exact ⟨[], after, text, .root after, rfl, rfl⟩
    · obtain ⟨before, after, text, slashless, place, begins, ends⟩ := mem_runsFrom_iff.1 inside
      rw [Nat.zero_add] at place
      rcases Run.span?_eq_some_iff.1 span with ⟨rfl, rfl⟩ | ⟨⟨filled, notDot⟩, rfl⟩
      · cases List.length_eq_zero_iff.1 place.symm
        exact ⟨[], after, text, .current ends, rfl, rfl⟩
      · refine ⟨before, after, text, .name filled slashless notDot begins ends, place, ?_⟩
        rw [List.length_append, ← place]
        rfl
  · obtain ⟨component, start, stop⟩ := s
    rintro ⟨before, after, text, stands, place, ends⟩
    simp only at text stands place ends
    subst place ends
    cases stands with
    | root after =>
      have absolute : p.isAbsolute = true := by simp [isAbsolute, text, Component.text]
      rw [if_pos absolute]
      exact .inl List.mem_cons_self
    | current ends =>
      exact .inr ⟨⟨0, dot⟩, mem_runsFrom_iff.2 ⟨[], after, text, by decide, rfl, .inl rfl, ends⟩, rfl⟩
    | @name _ name _ filled slashless notDot begins ends =>
      refine .inr ⟨⟨before.length, name⟩, mem_runsFrom_iff.2 ⟨before, after, text, slashless,
        (Nat.zero_add _).symm, begins, ends⟩, Run.span?_eq_some_iff.2 (.inr ⟨⟨filled, notDot⟩, ?_⟩)⟩
      rw [nameSpan, List.length_append]
      rfl

theorem Stands.text_ne_nil {before after : Bytes} {c : Component} (stands : Stands before c after) :
    c.text ≠ [] := by
  cases stands with
  | root => exact List.cons_ne_nil _ _
  | current => exact List.cons_ne_nil _ _
  | name filled => exact filled

theorem Stands.slash_not_mem {before after : Bytes} {c : Component} (stands : Stands before c after)
    (other : c ≠ .root) : slash ∉ c.text := by
  cases stands with
  | root => exact absurd rfl other
  | current => exact by decide
  | name _ slashless => exact slashless

theorem head?_append_of_slashless {name after : Bytes} (filled : name ≠ []) (slashless : slash ∉ name) :
    (name ++ after).head? ≠ some slash := by
  obtain ⟨b, name, rfl⟩ := List.exists_cons_of_ne_nil filled
  exact fun no => slashless (Option.some.inj no ▸ List.mem_cons_self)

namespace Span.Within

variable {s : Span} {text : Bytes}

theorem start_lt_stop (within : s.Within text) : s.start < s.stop := by
  obtain ⟨before, after, -, stands, start, stop⟩ := within
  have filled := List.length_pos_iff.2 stands.text_ne_nil
  rw [start, stop, List.length_append]
  omega

theorem stop_le_length (within : s.Within text) : s.stop ≤ text.length := by
  obtain ⟨before, after, whole, -, -, stop⟩ := within
  rw [stop, whole, ← List.append_assoc]
  exact (List.prefix_append _ after).length_le

/-- Where a path begins with a slash, nothing but the root stands at the start. -/
theorem start_pos (within : s.Within text) (absolute : text.head? = some slash)
    (other : s.component ≠ .root) : 0 < s.start := by
  obtain ⟨before, after, whole, stands, start, -⟩ := within
  rw [start, List.length_pos_iff]
  rintro rfl
  rw [whole] at absolute
  exact head?_append_of_slashless stands.text_ne_nil (stands.slash_not_mem other) absolute

end Span.Within

theorem Run.start_of_span? {r : Run} {s : Span} (span : r.span? = some s) :
    s.start = r.start ∧ s.stop = r.start + r.bytes.length ∧ s.component ≠ .root := by
  rcases Run.span?_eq_some_iff.1 span with ⟨rfl, rfl⟩ | ⟨-, rfl⟩ <;> exact ⟨rfl, rfl, nofun⟩

theorem Run.bytes_of_span? {r : Run} {s : Span} (span : r.span? = some s) : r.bytes ≠ [] := by
  rcases Run.span?_eq_some_iff.1 span with ⟨rfl, rfl⟩ | ⟨⟨filled, -⟩, rfl⟩
  · exact List.cons_ne_nil _ _
  · exact filled

/-- A component of a path ends before the next one starts. -/
theorem spans_ordered (p : Path) : p.spans.Pairwise fun s t => s.stop ≤ t.start := by
  refine List.pairwise_append.2 ⟨?_, ?_, fun s isRoot t inside => ?_⟩
  · split
    · exact List.pairwise_singleton _ _
    · exact List.Pairwise.nil
  · refine List.pairwise_filterMap.2 ((runsFrom_ordered 0 p.text).imp ?_)
    intro r r' less s span s' span'
    rw [(Run.start_of_span? span).2.1, (Run.start_of_span? span').1]
    exact Nat.le_of_lt less
  · -- A run with bytes in it does not start where the slash of the root stands.
    cases absolute : p.isAbsolute with
    | false => simp [absolute] at isRoot
    | true =>
      rw [absolute, if_pos rfl, List.mem_singleton] at isRoot
      subst isRoot
      obtain ⟨r, -, span⟩ := List.mem_filterMap.1 inside
      have within := mem_spans_iff.1 (List.mem_append_right _ inside)
      exact within.start_pos (of_decide_eq_true absolute) (Run.start_of_span? span).2.2

/-- Spans are the components of a text: all that can stand in it, in their order. -/
structure Listing (text : Bytes) (spans : List Span) : Prop where
  mem_iff : ∀ s, s ∈ spans ↔ s.Within text
  ordered : spans.Pairwise fun s t => s.stop ≤ t.start

theorem listing_spans (p : Path) : Listing p.text p.spans := ⟨fun _ => mem_spans_iff, spans_ordered p⟩

namespace Listing

variable {text : Bytes} {spans : List Span}

theorem start_lt_stop (listing : Listing text spans) : ∀ s ∈ spans, s.start < s.stop :=
  fun s inside => ((listing.mem_iff s).1 inside).start_lt_stop

theorem nodup (listing : Listing text spans) : spans.Nodup := by
  refine listing.ordered.imp_of_mem fun inside _ apart same => ?_
  have := listing.start_lt_stop _ inside
  rw [← same] at apart
  omega

end Listing

/-- A path has one list of components. -/
theorem listing_iff {p : Path} {spans : List Span} : Listing p.text spans ↔ spans = p.spans := by
  constructor
  · intro listing
    have own := listing_spans p
    have members : spans.Perm p.spans := by
      refine (List.perm_ext_iff_of_nodup listing.nodup own.nodup).2 fun s => ?_
      rw [listing.mem_iff, own.mem_iff]
    refine members.eq_of_pairwise (fun s t inside inside' apart apart' => ?_) listing.ordered own.ordered
    have := listing.start_lt_stop s inside
    have := own.start_lt_stop t inside'
    omega
  · rintro rfl
    exact listing_spans p

theorem exists_first_run (text : Bytes) : ∃ name after, text = name ++ after ∧ slash ∉ name ∧
    (after = [] ∨ after.head? = some slash) := by
  induction text using slash_induction with
  | whole text slashless => exact ⟨text, [], (List.append_nil _).symm, slashless, .inl rfl⟩
  | slashed a b slashless => exact ⟨a, slash :: b, rfl, slashless, .inr rfl⟩

/-- A path that is not empty has a component at its start. -/
theorem exists_span_at_start {p : Path} (filled : p.text ≠ []) : ∃ s ∈ p.spans, s.start = 0 := by
  suffices stands : ∃ (c : Component) (after : Bytes), p.text = c.text ++ after ∧ Stands [] c after by
    obtain ⟨c, after, text, stands⟩ := stands
    exact ⟨⟨c, 0, c.text.length⟩, mem_spans_iff.2 ⟨[], after, text, stands, rfl, rfl⟩, rfl⟩
  obtain ⟨name, after, text, slashless, ends⟩ := exists_first_run p.text
  by_cases none : name = []
  · rw [none, List.nil_append] at text
    rw [text] at filled
    obtain ⟨rest, rfl⟩ := List.head?_eq_some_iff.1 (ends.resolve_left filled)
    exact ⟨.root, rest, text, .root rest⟩
  · by_cases isDot : name = dot
    · subst isDot
      exact ⟨.current, after, text, .current ends⟩
    · exact ⟨.name name, after, text, .name none slashless isDot (.inl rfl) ends⟩

/-- The first component of a path stands at its start. -/
theorem start_of_head? {p : Path} {first : Span} (begins : p.spans.head? = some first) :
    first.start = 0 := by
  obtain ⟨later, split⟩ := List.head?_eq_some_iff.1 begins
  have own := listing_spans p
  have less := own.start_lt_stop first (split ▸ List.mem_cons_self)
  have filled : p.text ≠ [] := by
    obtain ⟨before, after, text, stands, -⟩ := mem_spans_iff.1 (List.mem_of_mem_head? begins)
    rw [text]
    exact List.append_ne_nil_of_right_ne_nil _ (List.append_ne_nil_of_left_ne_nil stands.text_ne_nil _)
  obtain ⟨s, inside, start⟩ := exists_span_at_start filled
  rw [split] at inside
  rcases List.mem_cons.1 inside with rfl | behind
  · exact start
  · have ordered := own.ordered
    rw [split, List.pairwise_cons] at ordered
    have := ordered.1 s behind
    omega

theorem components_eq_nil_iff {p : Path} : p.components = [] ↔ p.text = [] := by
  rw [components, List.map_eq_nil_iff]
  constructor
  · intro none
    by_contra filled
    obtain ⟨s, inside, -⟩ := exists_span_at_start filled
    rw [none] at inside
    cases inside
  · intro empty
    rw [spans, isAbsolute, runs, empty]
    rfl

/-- Only the first component of a path stands at its start. -/
theorem start_pos_of_spans {p : Path} {earlier later : List Span} {s : Span}
    (split : p.spans = earlier ++ s :: later) (inner : earlier ≠ []) : 0 < s.start := by
  obtain ⟨first, earlier, rfl⟩ := List.exists_cons_of_ne_nil inner
  have own := listing_spans p
  have ordered := own.ordered
  rw [split, List.cons_append, List.pairwise_cons] at ordered
  have apart := ordered.1 s (List.mem_append_right _ List.mem_cons_self)
  have less := own.start_lt_stop first (split ▸ List.mem_cons_self)
  omega

/-! ## Cuts -/

/-- A component that is a run comes from runs before, the run and runs after it. -/
theorem filterMap_span?_eq_append_cons {runs : List Run} {earlier later : List Span} {s : Span}
    (split : runs.filterMap Run.span? = earlier ++ s :: later) :
    ∃ before r after, runs = before ++ r :: after ∧ before.filterMap Run.span? = earlier ∧
      r.span? = some s ∧ after.filterMap Run.span? = later := by
  obtain ⟨front, back, rfl, own, rest⟩ := List.filterMap_eq_append_iff.1 split
  obtain ⟨skipped, r, after, rfl, none, span, tail⟩ := List.filterMap_eq_cons_iff.1 rest
  refine ⟨front ++ skipped, r, after, by simp, ?_, span, tail⟩
  rw [List.filterMap_append, own, List.filterMap_eq_nil_iff.2 none, List.append_nil]

/-- A component of a path is the root, or one of the runs. -/
theorem spans_eq_append_cons {p : Path} {earlier later : List Span} {s : Span}
    (split : p.spans = earlier ++ s :: later) :
    (p.isAbsolute = true ∧ earlier = [] ∧ s = ⟨.root, 0, 1⟩ ∧ p.runs.filterMap Run.span? = later) ∨
      ∃ before, p.runs.filterMap Run.span? = before ++ s :: later := by
  cases absolute : p.isAbsolute with
  | false =>
    rw [spans, absolute] at split
    exact .inr ⟨earlier, split⟩
  | true =>
    rw [spans, absolute, if_pos rfl, List.singleton_append] at split
    cases earlier with
    | nil =>
      obtain ⟨rfl, own⟩ := List.cons.inj split
      exact .inl ⟨rfl, rfl, rfl, own⟩
    | cons first before => exact .inr ⟨before, (List.cons.inj split).2⟩

/-- What is after the last component of a path has no components. -/
theorem spans_take {p : Path} {last : Span} (ends : p.spans.getLast? = some last) :
    (Path.mk (p.text.take last.stop)).spans = p.spans := by
  obtain ⟨earlier, split⟩ := List.getLast?_eq_some_iff.1 ends
  rcases spans_eq_append_cons split with ⟨absolute, rfl, rfl, none⟩ | ⟨before, own⟩
  · obtain ⟨rest, text⟩ := List.head?_eq_some_iff.1 (of_decide_eq_true absolute)
    rw [split, text]
    rfl
  · obtain ⟨earlierRuns, r, after, runs, rfl, span, -⟩ := filterMap_span?_eq_append_cons own
    obtain ⟨front, back, text, slashless, start, runsBefore, -⟩ := runsFrom_eq_append_cons_iff.1 runs
    obtain ⟨-, stop, -⟩ := Run.start_of_span? span
    have filled := Run.bytes_of_span? span
    rw [← List.append_assoc] at text
    have take : p.text.take last.stop = front ++ r.bytes := by
      rw [stop, start, text, Nat.zero_add, ← List.length_append, List.take_left]
    have kept : runsFrom 0 (front ++ r.bytes) = earlierRuns ++ [r] :=
      runsFrom_eq_append_cons_iff.2 ⟨front, [], by simp, slashless, start, runsBefore, .nothing⟩
    have head : (front ++ r.bytes).head? = p.text.head? := by
      rw [text, List.head?_append_of_ne_nil _ (List.append_ne_nil_of_right_ne_nil _ filled)]
    have shorter : (Path.mk (front ++ r.bytes)).runs = earlierRuns ++ [r] := kept
    rw [take, spans, spans, isAbsolute, isAbsolute, head, own, shorter, List.filterMap_append,
      List.filterMap_cons_some span]
    rfl

/-- Behind the first slash the components are the same wherever a text starts. -/
theorem components_runsFrom {start other : Nat} (later : 0 < start) (later' : 0 < other) (text : Bytes) :
    ((runsFrom start text).filterMap Run.span?).map Span.component =
      ((runsFrom other text).filterMap Run.span?).map Span.component := by
  have single (bytes : Bytes) {k j : Nat} (later : 0 < k) (later' : 0 < j) :
      ((Run.mk k bytes).span?.map Span.component) = ((Run.mk j bytes).span?.map Span.component) := by
    unfold Run.span?
    simp only [Nat.ne_of_gt later, Nat.ne_of_gt later']
    split
    · rfl
    · split <;> rfl
  simp only [List.map_filterMap]
  induction text using slash_induction generalizing start other with
  | whole text slashless =>
    rw [runsFrom_slashless _ slashless, runsFrom_slashless _ slashless, List.filterMap_cons,
      List.filterMap_cons, single text later later']
  | slashed a b slashless ih =>
    rw [runsFrom_slashed slashless, runsFrom_slashed slashless, List.filterMap_cons, List.filterMap_cons,
      single a later later', ih (Nat.succ_pos _) (Nat.succ_pos _)]

/-- From a component on that is not the first one a text has the components from there, and no root. -/
theorem components_drop {p : Path} {earlier later : List Span} {s : Span}
    (split : p.spans = earlier ++ s :: later) (inner : earlier ≠ []) :
    (p.text.drop s.start).head? ≠ some slash ∧ ∀ start, 0 < start →
      ((runsFrom start (p.text.drop s.start)).filterMap Run.span?).map Span.component =
        s.component :: later.map Span.component := by
  have place := start_pos_of_spans split inner
  obtain ⟨before, own⟩ := (spans_eq_append_cons split).resolve_left fun no => inner no.2.1
  obtain ⟨_, r, after, runs, -, span, rest⟩ := filterMap_span?_eq_append_cons own
  obtain ⟨front, back, text, slashless, start, -, runsAfter⟩ := runsFrom_eq_append_cons_iff.1 runs
  obtain ⟨same, -, -⟩ := Run.start_of_span? span
  have filled := Run.bytes_of_span? span
  have drop : p.text.drop s.start = r.bytes ++ back := by
    rw [same, start, Nat.zero_add, text, List.drop_left]
  have here := runsAfter.runsFrom_eq slashless
  rw [drop]
  refine ⟨head?_append_of_slashless filled slashless, fun k later' => ?_⟩
  rw [components_runsFrom later' (same ▸ place), here, List.filterMap_cons_some span, rest, List.map_cons]

end DefTally.Path
