import DefTally.Proofs.Path.Chain

/-!
# Paths with slashes and dots at the end

A path may be spelled with slashes and dots put after it (`extend`). It begins as before, and of what
is put after it only the dots are looked up (`names_extend`).
-/

namespace DefTally.Path

open DefTally.Text

/-- What may be put after the path of a directory. -/
inductive Ending where
  | slash
  | slashDot
  deriving DecidableEq, Repr

namespace Ending

/-- The bytes of an ending. -/
def text : Ending → Bytes
  | slash => [Path.slash]
  | slashDot => Path.slash :: dot

/-- The names that are looked up for an ending. -/
def names : Ending → List Bytes
  | slash => []
  | slashDot => [dot]

end Ending

/-- The path with endings put after it, one after the other. -/
def extend (p : Path) (endings : List Ending) : Path := ⟨p.text ++ endings.flatMap Ending.text⟩

/-- The names that are looked up for endings. -/
def dots (endings : List Ending) : List Bytes := endings.flatMap Ending.names

theorem eq_dot_of_mem_dots {endings : List Ending} {name : Bytes} (h : name ∈ dots endings) :
    name = dot := by
  obtain ⟨e, -, own⟩ := List.mem_flatMap.1 h
  cases e with
  | slash => cases own
  | slashDot => exact List.mem_singleton.1 own

section Extend

variable (p : Path) (endings : List Ending)

theorem names_ending (e : Ending) : (Path.mk (p.text ++ e.text)).names = p.names ++ e.names := by
  have apart (rest : Bytes) : (Path.mk (p.text ++ slash :: rest)).names =
      p.names ++ ((runsFrom (0 + p.text.length + 1) rest).map Run.bytes).filter (· ≠ []) := by
    rw [names, runs, runsFrom_append_slash, List.map_append, List.filter_append]
    rfl
  cases e with
  | slash => exact apart []
  | slashDot => exact apart dot

/-- Of the endings of a path the dots are looked up. -/
theorem names_extend : (p.extend endings).names = p.names ++ dots endings := by
  induction endings generalizing p with
  | nil => simp [extend, dots]
  | cons e rest ih =>
    have onward : p.extend (e :: rest) = (Path.mk (p.text ++ e.text)).extend rest := by
      simp [extend]
    rw [onward, ih, names_ending, List.append_assoc]
    rfl

theorem isAbsolute_extend (filled : p.text ≠ []) : (p.extend endings).isAbsolute = p.isAbsolute := by
  obtain ⟨b, rest, text⟩ := List.exists_cons_of_ne_nil filled
  simp [isAbsolute, extend, text]

theorem nul_mem_extend_iff : 0 ∈ (p.extend endings).text ↔ 0 ∈ p.text := by
  have noNul : ∀ e : Ending, 0 ∉ e.text := by rintro (_ | _) <;> decide
  simp [extend, noNul]

theorem length_le_extend : p.text.length ≤ (p.extend endings).text.length := by
  simp [extend]

/-- What stands before a name that is joined to a path does not become shorter by endings. -/
theorem length_stem_le_extend : p.stem.length ≤ (p.extend endings).stem.length := by
  cases endings with
  | nil => simp [extend]
  | cons e rest =>
    have own : p.stem.length ≤ p.text.length + 1 := by
      rw [stem]
      split <;> simp
    have longer : p.text.length + 1 ≤ (p.extend (e :: rest)).text.length := by
      have some : 1 ≤ e.text.length := by cases e <;> decide
      rw [extend, List.flatMap_cons, List.length_append, List.length_append]
      omega
    exact Nat.le_trans own (Nat.le_trans longer (length_le_stem _))

end Extend

end DefTally.Path
