import DefTally.Path

/-!
# Paths made by joining names

What becomes of a path when the names of directory entries are joined to it one below the
other: its text grows by the names with one slash between them (`joinAll_text`), its components
by the names (`spans_joinAll`), so that the rest of the new path after the old one is exactly
the names again (`stripPrefix?_joinAll`), however the old path is spelled.
-/

namespace DefTally.Path

open DefTally.Text

/-- The path of names one below the other. -/
def joinAll (p : Path) (names : List Bytes) : Path := names.foldl join p

@[simp] theorem joinAll_nil (p : Path) : p.joinAll [] = p := rfl

@[simp] theorem joinAll_cons (p : Path) (name : Bytes) (names : List Bytes) :
    p.joinAll (name :: names) = (p.join name).joinAll names := rfl

/-- Names with one slash between them. -/
def chain : List Bytes → Bytes
  | [] => []
  | [name] => name
  | name :: rest => name ++ slash :: chain rest

theorem chain_cons {rest : List Bytes} (name : Bytes) (h : rest ≠ []) :
    chain (name :: rest) = name ++ slash :: chain rest := by
  cases rest with
  | nil => exact absurd rfl h
  | cons next later => rfl

/-- The text of a path up to a name that is joined to it. -/
def stem (p : Path) : Bytes :=
  if p.text.isEmpty || p.endsInSlash then p.text else p.text ++ [slash]

theorem length_le_stem (p : Path) : p.text.length ≤ p.stem.length := by
  rw [stem]
  split <;> simp

theorem Legal.head?_ne_slash {name : Bytes} (legal : Legal name) : name.head? ≠ some slash := by
  intro h
  exact legal.slashless (List.mem_of_mem_head? h)

theorem Legal.getLast?_ne_slash {name : Bytes} (legal : Legal name) :
    name.getLast? ≠ some slash := by
  intro h
  exact legal.slashless (List.mem_of_getLast? h)

/-- What is joined to a path stands behind its stem, unless it begins with a slash. -/
theorem join_text_of_head? {rest : Bytes} (p : Path) (relative : rest.head? ≠ some slash) :
    (p.join rest).text = p.stem ++ rest := by
  have noRoot : (rest.head? = some slash) = False := eq_false relative
  unfold join stem
  cases empty : p.text.isEmpty with
  | true => simp [noRoot, List.isEmpty_iff.1 empty]
  | false => cases p.endsInSlash <;> simp [noRoot]

theorem join_text {name : Bytes} (p : Path) (legal : Legal name) :
    (p.join name).text = p.stem ++ name :=
  join_text_of_head? p legal.head?_ne_slash

theorem stem_join {name : Bytes} (p : Path) (legal : Legal name) :
    (p.join name).stem = p.stem ++ name ++ [slash] := by
  have filled : (p.join name).text ≠ [] := by
    rw [join_text p legal]
    exact List.append_ne_nil_of_right_ne_nil _ legal.nonempty
  have open_ : (p.join name).endsInSlash = false := by
    have last := List.getLast?_eq_some_getLast legal.nonempty
    rw [endsInSlash, join_text p legal, List.getLast?_append, last, Option.some_or, ← last]
    exact decide_eq_false legal.getLast?_ne_slash
  rw [stem, open_, List.isEmpty_eq_false_iff.2 filled, join_text p legal]
  rfl

/-- Joining names puts them, with one slash between them, behind the stem of the path. -/
theorem joinAll_text (p : Path) {names : List Bytes} (filled : names ≠ [])
    (legal : ∀ name ∈ names, Legal name) : (p.joinAll names).text = p.stem ++ chain names := by
  induction names generalizing p with
  | nil => exact absurd rfl filled
  | cons name rest ih =>
    have first := legal name List.mem_cons_self
    by_cases last : rest = []
    · subst last
      exact join_text p first
    · rw [joinAll_cons, ih _ last fun n h => legal n (List.mem_cons_of_mem _ h), stem_join p first,
        chain_cons name last]
      simp

/-! ## The components of a joined path -/

theorem runsFrom_ne_nil (start : Nat) (text : Bytes) : runsFrom start text ≠ [] := by
  cases text with
  | nil => exact List.cons_ne_nil _ _
  | cons b rest =>
    rw [runsFrom]
    split
    · exact List.cons_ne_nil _ _
    · split <;> exact List.cons_ne_nil _ _

/-- A slash ends a run and lets the next one begin. -/
theorem runsFrom_append_slash (start : Nat) (a b : Bytes) :
    runsFrom start (a ++ slash :: b) = runsFrom start a ++ runsFrom (start + a.length + 1) b := by
  induction a generalizing start with
  | nil => simp [runsFrom]
  | cons c rest ih =>
    have shift : start + 1 + rest.length + 1 = start + (c :: rest).length + 1 := by
      simp only [List.length_cons]; omega
    rw [List.cons_append, runsFrom, runsFrom, ih, shift]
    split
    · rfl
    · cases runs : runsFrom (start + 1) rest with
      | nil => exact absurd runs (runsFrom_ne_nil _ _)
      | cons r rs => rfl

theorem runsFrom_slashless (start : Nat) {text : Bytes} (h : slash ∉ text) :
    runsFrom start text = [⟨start, text⟩] := by
  induction text generalizing start with
  | nil => rfl
  | cons b rest ih =>
    rw [List.mem_cons, not_or] at h
    rw [runsFrom, if_neg (Ne.symm h.1), ih _ h.2]

/-- The runs of names that stand one after the other from a position on. -/
def placed (start : Nat) : List Bytes → List Run
  | [] => []
  | name :: rest => ⟨start, name⟩ :: placed (start + name.length + 1) rest

theorem runsFrom_chain (start : Nat) {names : List Bytes} (filled : names ≠ [])
    (legal : ∀ name ∈ names, Legal name) : runsFrom start (chain names) = placed start names := by
  induction names generalizing start with
  | nil => exact absurd rfl filled
  | cons name rest ih =>
    have first := legal name List.mem_cons_self
    by_cases last : rest = []
    · subst last
      exact runsFrom_slashless start first.slashless
    · rw [chain_cons name last, runsFrom_append_slash, runsFrom_slashless start first.slashless,
        ih _ last fun n h => legal n (List.mem_cons_of_mem _ h)]
      rfl

/-- The component that a name is where it stands. -/
def nameSpan (r : Run) : Span := ⟨.name r.bytes, r.start, r.start + r.bytes.length⟩

theorem filterMap_span?_placed (start : Nat) {names : List Bytes}
    (legal : ∀ name ∈ names, Legal name) :
    (placed start names).filterMap Run.span? = (placed start names).map nameSpan := by
  induction names generalizing start with
  | nil => rfl
  | cons name rest ih =>
    have first := legal name List.mem_cons_self
    have span : Run.span? ⟨start, name⟩ = some (nameSpan ⟨start, name⟩) := by
      rw [Run.span?, if_neg first.nonempty, if_neg first.not_dot]
      rfl
    rw [placed, List.filterMap_cons_some span, ih _ fun n h => legal n (List.mem_cons_of_mem _ h)]
    rfl

theorem filterMap_span?_runsFrom_nil (start : Nat) :
    (runsFrom start []).filterMap Run.span? = [] := rfl

/-- The runs of a joined path are those of the path and those of the names. -/
theorem filterMap_span?_stem (p : Path) (rest : Bytes) :
    (runsFrom 0 (p.stem ++ rest)).filterMap Run.span? =
      p.runs.filterMap Run.span? ++ (runsFrom p.stem.length rest).filterMap Run.span? := by
  unfold stem runs
  cases empty : p.text.isEmpty with
  | true => simp [List.isEmpty_iff.1 empty, filterMap_span?_runsFrom_nil]
  | false =>
    cases closed : p.endsInSlash with
    | true =>
      obtain ⟨before, text⟩ := List.getLast?_eq_some_iff.1 (of_decide_eq_true closed)
      simp [text, List.append_assoc, runsFrom_append_slash, filterMap_span?_runsFrom_nil]
    | false => simp [List.append_assoc, runsFrom_append_slash]

theorem isAbsolute_joinAll (p : Path) {names : List Bytes} (filled : names ≠ [])
    (legal : ∀ name ∈ names, Legal name) : (p.joinAll names).isAbsolute = p.isAbsolute := by
  unfold isAbsolute
  rw [joinAll_text p filled legal]
  cases text : p.text with
  | cons b rest =>
    unfold stem
    cases p.endsInSlash <;> simp [text]
  | nil =>
    obtain ⟨name, later, rfl⟩ := List.exists_cons_of_ne_nil filled
    have first := legal name List.mem_cons_self
    have head : (chain (name :: later)).head? = name.head? := by
      cases later with
      | nil => rfl
      | cons next rest =>
        obtain ⟨b, name', rfl⟩ := List.exists_cons_of_ne_nil first.nonempty
        rfl
    simp [stem, text, head, first.head?_ne_slash]

/-- Joining names to a path adds them to its components. -/
theorem spans_joinAll (p : Path) {names : List Bytes} (filled : names ≠ [])
    (legal : ∀ name ∈ names, Legal name) :
    (p.joinAll names).spans = p.spans ++ (placed p.stem.length names).map nameSpan := by
  unfold spans
  rw [isAbsolute_joinAll p filled legal, runs, joinAll_text p filled legal, filterMap_span?_stem,
    runsFrom_chain _ filled legal, filterMap_span?_placed _ legal, List.append_assoc]

theorem components_joinAll (p : Path) {names : List Bytes} (filled : names ≠ [])
    (legal : ∀ name ∈ names, Legal name) :
    (p.joinAll names).components = p.components ++ names.map .name := by
  have inPlace : ∀ start, ((placed start names).map nameSpan).map Span.component =
      names.map Component.name := by
    clear filled legal
    induction names with
    | nil => exact fun _ => rfl
    | cons name rest ih => intro start; rw [placed, List.map_cons, List.map_cons, ih]; rfl
  rw [components, spans_joinAll p filled legal, List.map_append, inPlace]
  rfl

theorem afterPrefix_append (before rest : List Span) :
    afterPrefix (before.map Span.component) (before ++ rest) = some rest := by
  induction before with
  | nil => rfl
  | cons s later ih => rw [List.map_cons, List.cons_append, afterPrefix, if_pos rfl, ih]

/-- The last of some placed names ends where their chain ends. -/
theorem getLast?_placed (start : Nat) {names : List Bytes} (filled : names ≠ []) :
    ∃ last, ((placed start names).map nameSpan).getLast? = some last ∧
      last.stop = start + (chain names).length := by
  induction names generalizing start with
  | nil => exact absurd rfl filled
  | cons name rest ih =>
    by_cases last : rest = []
    · subst last
      exact ⟨_, rfl, rfl⟩
    · obtain ⟨span, found, stop⟩ := ih (start + name.length + 1) last
      refine ⟨span, ?_, ?_⟩
      · rw [placed, List.map_cons, List.getLast?_cons, found]
        rfl
      · rw [stop, chain_cons name last, List.length_append, List.length_cons]
        omega

/-- What is left of a joined path after the path is the names, with one slash between them. -/
theorem stripPrefix?_joinAll (p : Path) {names : List Bytes} (filled : names ≠ [])
    (legal : ∀ name ∈ names, Legal name) :
    (p.joinAll names).stripPrefix? p = some ⟨chain names⟩ := by
  obtain ⟨last, found, stop⟩ := getLast?_placed p.stem.length filled
  obtain ⟨name, later, rfl⟩ := List.exists_cons_of_ne_nil filled
  have text := joinAll_text p filled legal
  have whole : last.stop = (p.joinAll (name :: later)).text.length := by
    rw [text, List.length_append, stop]
  rw [stripPrefix?, components, spans_joinAll p filled legal, afterPrefix_append, Option.map_some,
    cut, found]
  simp only [placed, List.map_cons, List.head?_cons, nameSpan]
  rw [whole, List.take_length, text, List.drop_left]

/-- The key of a joined path below the path shows the names that were joined. -/
theorem relativeKey_joinAll (p : Path) {names : List Bytes} (filled : names ≠ [])
    (legal : ∀ name ∈ names, Legal name) :
    p.relativeKey (p.joinAll names) = (Path.mk (chain names)).shown := by
  rw [relativeKey, stripPrefix?_joinAll p filled legal]
  rfl

/-- The last component of a joined path is the name that was joined last. -/
theorem fileName?_joinAll (p : Path) {names : List Bytes} {name : Bytes}
    (last : names.getLast? = some name) (legal : ∀ name ∈ names, Legal name) :
    (p.joinAll names).fileName? = some name := by
  have filled : names ≠ [] := by rintro rfl; cases last
  have own : name ≠ dotDot := (legal name (List.mem_of_getLast? last)).not_dotDot
  have ends : (p.joinAll names).components.getLast? = some (.name name) := by
    rw [components_joinAll p filled legal, List.getLast?_append, List.getLast?_map, last]
    rfl
  rw [fileName?, ends]
  exact if_neg own

end DefTally.Path
