import DefTally.Proofs.Path.Joined

/-!
# Chains of names

Names that are written with one slash between them can be told from the text: it has no other
legal names (`chain_injective`), and what stands behind a beginning of them and a slash is the chain
of the rest (`exists_of_chain_eq`). Joining a chain to a path is joining its names one below the
other (`join_chain`).
-/

namespace DefTally.Path

open DefTally.Text

theorem joinAll_append (p : Path) (a b : List Bytes) :
    p.joinAll (a ++ b) = (p.joinAll a).joinAll b :=
  List.foldl_append

theorem chain_ne_nil {names : List Bytes} (filled : names ≠ [])
    (legal : ∀ name ∈ names, Legal name) : chain names ≠ [] := by
  obtain ⟨name, rest, rfl⟩ := List.exists_cons_of_ne_nil filled
  have first := (legal name List.mem_cons_self).nonempty
  cases rest with
  | nil => exact first
  | cons next later =>
    rw [chain_cons name (List.cons_ne_nil _ _)]
    exact List.append_ne_nil_of_left_ne_nil first _

theorem chain_append {a b : List Bytes} (filledA : a ≠ []) (filledB : b ≠ []) :
    chain (a ++ b) = chain a ++ slash :: chain b := by
  induction a with
  | nil => exact absurd rfl filledA
  | cons name rest ih =>
    by_cases last : rest = []
    · subst last
      exact chain_cons name filledB
    · rw [List.cons_append, chain_cons name (List.append_ne_nil_of_left_ne_nil last b), ih last,
        chain_cons name last, List.append_assoc, List.cons_append]

/-- The first byte of a chain is that of its first name. -/
theorem chain_head?_ne_slash {names : List Bytes} (legal : ∀ name ∈ names, Legal name) :
    (chain names).head? ≠ some slash := by
  cases names with
  | nil => exact fun no => by cases no
  | cons name rest =>
    have first := legal name List.mem_cons_self
    obtain ⟨b, later, rfl⟩ := List.exists_cons_of_ne_nil first.nonempty
    cases rest <;> exact first.head?_ne_slash

theorem map_bytes_placed (start : Nat) (names : List Bytes) :
    (placed start names).map Run.bytes = names := by
  induction names generalizing start with
  | nil => rfl
  | cons name rest ih => rw [placed, List.map_cons, ih]

/-- The names of a chain are the runs between its slashes. -/
theorem map_bytes_chain (start : Nat) {names : List Bytes} (filled : names ≠ [])
    (legal : ∀ name ∈ names, Legal name) : (runsFrom start (chain names)).map Run.bytes = names := by
  rw [runsFrom_chain start filled legal, map_bytes_placed]

/-- Different names make different chains. -/
theorem chain_injective {a b : List Bytes} (filledA : a ≠ []) (filledB : b ≠ [])
    (legalA : ∀ name ∈ a, Legal name) (legalB : ∀ name ∈ b, Legal name)
    (same : chain a = chain b) : a = b := by
  rw [← map_bytes_chain 0 filledA legalA, same, map_bytes_chain 0 filledB legalB]

/-- A chain that begins with another one and a slash goes on as the chain of the rest. -/
theorem exists_of_chain_eq {names before : List Bytes} {rest : Bytes} (filled : names ≠ [])
    (filledBefore : before ≠ []) (legal : ∀ name ∈ names, Legal name)
    (legalBefore : ∀ name ∈ before, Legal name) (same : chain names = chain before ++ slash :: rest) :
    ∃ later, later ≠ [] ∧ names = before ++ later ∧ chain later = rest := by
  have runs := map_bytes_chain 0 filled legal
  rw [same, runsFrom_append_slash, List.map_append, map_bytes_chain 0 filledBefore legalBefore] at runs
  have some : (runsFrom (0 + (chain before).length + 1) rest).map Run.bytes ≠ [] := by
    rw [Ne, List.map_eq_nil_iff]
    exact runsFrom_ne_nil _ _
  refine ⟨_, some, runs.symm, ?_⟩
  rw [← runs, chain_append filledBefore some] at same
  exact (List.cons.inj (List.append_cancel_left same)).2

/-- A chain is joined to a path as its names are, one below the other. -/
theorem join_chain (p : Path) {names : List Bytes} (filled : names ≠ [])
    (legal : ∀ name ∈ names, Legal name) : p.join (chain names) = p.joinAll names := by
  have text := join_text_of_head? p (chain_head?_ne_slash legal)
  rw [← joinAll_text p filled legal] at text
  exact congrArg Path.mk text

/-! ## The names of a joined path -/

theorem filter_bytes_stem (p : Path) (rest : Bytes) :
    ((runsFrom 0 (p.stem ++ rest)).map Run.bytes).filter (· ≠ []) =
      p.names ++ ((runsFrom p.stem.length rest).map Run.bytes).filter (· ≠ []) := by
  unfold stem names runs
  cases empty : p.text.isEmpty with
  | true => simp [List.isEmpty_iff.1 empty, runsFrom]
  | false =>
    cases closed : p.endsInSlash with
    | true =>
      obtain ⟨before, text⟩ := List.getLast?_eq_some_iff.1 (of_decide_eq_true closed)
      simp [text, List.append_assoc, runsFrom_append_slash, runsFrom]
    | false => simp [List.append_assoc, runsFrom_append_slash]

/-- Joining names to a path adds them to the names that are looked up. -/
theorem names_joinAll (p : Path) {names : List Bytes} (filled : names ≠ [])
    (legal : ∀ name ∈ names, Legal name) : (p.joinAll names).names = p.names ++ names := by
  have kept : names.filter (· ≠ []) = names :=
    List.filter_eq_self.2 fun name inside => decide_eq_true (legal name inside).nonempty
  rw [Path.names, runs, joinAll_text p filled legal, filter_bytes_stem,
    map_bytes_chain _ filled legal, kept]

/-- A joined path does not end in a slash. -/
theorem endsInSlash_joinAll (p : Path) {names : List Bytes} (filled : names ≠ [])
    (legal : ∀ name ∈ names, Legal name) : (p.joinAll names).endsInSlash = false := by
  have last : (chain names).getLast? ≠ some slash := by
    induction names with
    | nil => exact absurd rfl filled
    | cons name rest ih =>
      by_cases single : rest = []
      · subst single
        exact (legal name List.mem_cons_self).getLast?_ne_slash
      · have legalRest : ∀ n ∈ rest, Legal n := fun n h => legal n (List.mem_cons_of_mem _ h)
        have more := chain_ne_nil single legalRest
        rw [chain_cons name single, List.getLast?_append, List.getLast?_cons,
          List.getLast?_eq_some_getLast more, Option.some_or]
        rw [List.getLast?_eq_some_getLast more] at ih
        exact ih single legalRest
  have more := chain_ne_nil filled legal
  rw [endsInSlash, joinAll_text p filled legal, List.getLast?_append,
    List.getLast?_eq_some_getLast more, Option.some_or, ← List.getLast?_eq_some_getLast more]
  exact decide_eq_false last

end DefTally.Path
