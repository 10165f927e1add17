import DefTally.Proofs.FileSystem.Along
import DefTally.Proofs.Path.Extended

/-!
# Where a path with slashes and dots at the end leads

Dots at the end of a path only ask for a directory that can be opened (`walk_dots_after`), and dots
before more names make no difference (`walk_dots_between`). So with slashes and dots put after it a path
leads to the same open directory as without them, if it leads to one (`resolve_extend_directory_iff`),
and names below it lead to the same place (`locate_joinAll_extend`).
-/

namespace DefTally.FileSystem

open DefTally.Text

section Walk

variable {root : Node} {onLink onLink' : Bool → Place → Path → List Bytes → Except Failure Found}
  {more later : List Bytes} {asks asks' : Bool}

/-! ## Dots before more names -/

/-- Before a name a dot makes no difference, as a name asks for a directory as well. -/
theorem walkNames_dots_before (only : ∀ name ∈ more, name = Path.dot) (some : later ≠ [])
    (here : Place) : walkNames root true onLink asks here (more ++ later) =
      walkNames root true onLink asks here later := by
  induction more with
  | nil => rfl
  | cons name rest ih =>
    obtain rfl := only name List.mem_cons_self
    rw [List.cons_append, walkNames_cons_followed]
    by_cases opens : ∃ entries, here.node = .directory entries
    · obtain ⟨entries, at_⟩ := opens
      rw [lookUp_dot at_]
      exact ih fun n h => only n (List.mem_cons_of_mem _ h)
    · have closed := not_exists.1 opens
      obtain ⟨next, further, rfl⟩ := List.exists_cons_of_ne_nil some
      rw [lookUp_of_closed closed, walkNames_cons_followed, lookUp_of_closed closed]

theorem walkNames_dots_between (only : ∀ name ∈ more, name = Path.dot) (some : later ≠ [])
    (goesOn : ∀ asks here target rest, onLink asks here target (rest ++ (more ++ later)) =
      onLink asks here target (rest ++ later)) (asks : Bool) (names : List Bytes) : ∀ here,
    walkNames root true onLink asks here (names ++ (more ++ later)) =
      walkNames root true onLink asks here (names ++ later) := by
  induction names with
  | nil => exact walkNames_dots_before only some
  | cons name rest ih =>
    intro here
    rw [List.cons_append, List.cons_append, walkNames_cons_followed, walkNames_cons_followed]
    cases lookUp root here name with
    | refused e => rfl
    | place there => exact ih there
    | link target => exact goesOn asks here target rest
    | absent => simp [some]

/-- Dots between names make no difference to where the names lead. -/
theorem walk_dots_between (only : ∀ name ∈ more, name = Path.dot) (some : later ≠ []) (links : Nat) :
    ∀ asks here names, walk root true links asks here (names ++ (more ++ later)) =
      walk root true links asks here (names ++ later) := by
  induction links with
  | zero =>
    exact fun asks here names =>
      walkNames_dots_between only some (fun _ _ _ _ => rfl) asks names here
  | succ links ih =>
    refine fun asks here names => walkNames_dots_between only some (fun asks here target rest => ?_)
      asks names here
    -- The name of the link is not the last one either way, so its target asks for nothing.
    have notLast : (rest ++ (more ++ later)).isEmpty = false ∧ (rest ++ later).isEmpty = false := by
      simp [some]
    rw [notLast.1, notLast.2, ← List.append_assoc, ih, List.append_assoc]

/-! ## Dots at the end -/

/-- What is in the open directory that a walk comes to, if it comes to one. -/
def opened? : Except Failure Found → Option (List (Bytes × Node))
  | .ok (.place ⟨_, .directory entries⟩) => some entries
  | _ => none

theorem walkNames_dots (only : ∀ name ∈ more, name = Path.dot) (here : Place) :
    opened? (walkNames root true onLink asks here more) = opened? (.ok (.place here)) := by
  induction more with
  | nil =>
    obtain ⟨names, node⟩ := here
    cases node with
    | file | link | special | directory => cases asks <;> rfl
    | shut isDirectory => cases isDirectory <;> cases asks <;> rfl
  | cons name rest ih =>
    obtain rfl := only name List.mem_cons_self
    rw [walkNames_cons_followed]
    by_cases opens : ∃ entries, here.node = .directory entries
    · obtain ⟨entries, at_⟩ := opens
      rw [lookUp_dot at_]
      exact ih fun n h => only n (List.mem_cons_of_mem _ h)
    · rw [lookUp_of_closed (not_exists.1 opens)]
      obtain ⟨names, node⟩ := here
      cases node with
      | file | link | special | shut => rfl
      | directory entries => exact absurd ⟨entries, rfl⟩ opens

theorem walkNames_dots_after (only : ∀ name ∈ more, name = Path.dot)
    (goesOn : ∀ here target rest, opened? (onLink' asks' here target (rest ++ more)) =
      opened? (onLink asks here target rest)) (names : List Bytes) : ∀ here,
    opened? (walkNames root true onLink' asks' here (names ++ more)) =
      opened? (walkNames root true onLink asks here names) := by
  induction names with
  | nil => exact fun here => (walkNames_dots only here).trans (walkNames_dots (by simp) here).symm
  | cons name rest ih =>
    intro here
    rw [List.cons_append, walkNames_cons_followed, walkNames_cons_followed]
    cases lookUp root here name with
    | refused e => rfl
    | place there => exact ih there
    | link target => exact goesOn here target rest
    | absent =>
      dsimp only
      split <;> split <;> rfl

/-- Dots at the end, or a slash, lead to the open directory that the names lead to without. -/
theorem walk_dots_after (only : ∀ name ∈ more, name = Path.dot) (links : Nat) :
    ∀ asks asks' here names, opened? (walk root true links asks' here (names ++ more)) =
      opened? (walk root true links asks here names) := by
  induction links with
  | zero =>
    exact fun asks asks' here names => walkNames_dots_after only (fun _ _ _ => rfl) names here
  | succ links ih =>
    refine fun asks asks' here names =>
      walkNames_dots_after only (fun here target rest => ?_) names here
    -- Whether the target asks for a directory does not matter: only a directory is opened.
    rw [← List.append_assoc]
    exact ih _ _ _ _

end Walk

/-! ## Paths -/

section Resolve

variable {fs : FileSystem} {p : Path} {endings : List Path.Ending} {names : List Bytes}

theorem resolve_directory_iff {follow : Bool} {entries : List (Bytes × Node)} :
    fs.resolve follow p = .ok (.directory entries) ↔ opened? (fs.locate follow p) = some entries := by
  rw [resolve]
  rcases fs.locate follow p with e | (⟨names, node⟩ | ⟨directory, name⟩)
  · simp [opened?]
  · cases node <;> simp [opened?]
  · simp [opened?]

theorem startOf_extend (filled : p.text ≠ []) : startOf fs (p.extend endings) = startOf fs p := by
  rw [startOf, p.isAbsolute_extend endings filled]
  rfl

/-- With slashes and dots put after it a path leads to an open directory just if it does without, and
to the same one. -/
theorem resolve_extend_directory_iff (filled : p.text ≠ [])
    (short : (p.extend endings).text.length ≤ maxPath) {entries : List (Bytes × Node)} :
    fs.resolve true (p.extend endings) = .ok (.directory entries) ↔
      fs.resolve true p = .ok (.directory entries) := by
  rw [resolve_directory_iff, resolve_directory_iff]
  by_cases nul : 0 ∈ p.text
  · rw [locate_of_nul nul, locate_of_nul ((p.nul_mem_extend_iff endings).2 nul)]
  have filled' : (p.extend endings).text ≠ [] := List.append_ne_nil_of_left_ne_nil filled _
  rw [locate_eq nul filled (Nat.le_trans (p.length_le_extend endings) short),
    locate_eq (nul ∘ (p.nul_mem_extend_iff endings).1) filled' short, startOf_extend filled,
    p.names_extend, walk_dots_after (fun _ => Path.eq_dot_of_mem_dots)]

theorem nul_mem_stem_iff (p : Path) : 0 ∈ p.stem ↔ 0 ∈ p.text := by
  have noNul : (0 : UInt8) ≠ Path.slash := by decide
  rw [Path.stem]
  split <;> simp [noNul]

/-- A path that is joined to does not become shorter by what is put after it first. -/
theorem length_joinAll_le_extend (p : Path) (endings : List Path.Ending)
    (legal : ∀ name ∈ names, Path.Legal name) :
    (p.joinAll names).text.length ≤ ((p.extend endings).joinAll names).text.length := by
  by_cases filled : names = []
  · subst filled
    exact p.length_le_extend endings
  · rw [Path.joinAll_text _ filled legal, Path.joinAll_text _ filled legal, List.length_append,
      List.length_append]
    exact Nat.add_le_add_right (p.length_stem_le_extend endings) _

/-- Below a path the same names lead to the same place, whatever slashes and dots are put after it. -/
theorem locate_joinAll_extend (filled : p.text ≠ []) (some : names ≠ [])
    (legal : ∀ name ∈ names, Path.Legal name)
    (short : ((p.extend endings).joinAll names).text.length ≤ maxPath) :
    fs.locate true ((p.extend endings).joinAll names) = fs.locate true (p.joinAll names) := by
  have nulBelow : 0 ∈ ((p.extend endings).joinAll names).text ↔ 0 ∈ (p.joinAll names).text := by
    rw [Path.joinAll_text _ some legal, Path.joinAll_text _ some legal, List.mem_append,
      List.mem_append, nul_mem_stem_iff, nul_mem_stem_iff, p.nul_mem_extend_iff]
  by_cases nul : 0 ∈ (p.joinAll names).text
  · rw [locate_of_nul nul, locate_of_nul (nulBelow.2 nul)]
  have short' := Nat.le_trans (length_joinAll_le_extend p endings legal) short
  rw [locate_joinAll some legal nul short', locate_joinAll some legal (nul ∘ nulBelow.1) short,
    startOf_extend filled, p.names_extend, List.append_assoc]
  exact walk_dots_between (fun _ => Path.eq_dot_of_mem_dots) some maxLinks _ _ _

theorem resolve_joinAll_extend (filled : p.text ≠ []) (some : names ≠ [])
    (legal : ∀ name ∈ names, Path.Legal name)
    (short : ((p.extend endings).joinAll names).text.length ≤ maxPath) :
    fs.resolve true ((p.extend endings).joinAll names) = fs.resolve true (p.joinAll names) := by
  rw [resolve, locate_joinAll_extend filled some legal short, resolve]

end Resolve

end DefTally.FileSystem
