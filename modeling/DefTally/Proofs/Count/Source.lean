import DefTally.Count

/-!
# The count of a source

When a source can be counted, and what the count of a file owes to its content alone.
-/

namespace DefTally

open DefTally.Source

variable {fs : FileSystem} {path : Path} {bytes : Text.Bytes} {n : Nat}

/-- A source is counted if it has no null byte, no byte order mark, and a tree. -/
theorem countSource_eq_ok_iff : countSource bytes = .ok n ↔
    '\x00' ∉ sourceText bytes ∧ (sourceText bytes).head? ≠ some byteOrderMark ∧
      ∃ tree, moduleTree? (sourceText bytes) = some tree ∧ n = countDefinitions tree := by
  unfold countSource
  dsimp only
  split
  · next nullByte =>
    have inside : '\x00' ∈ sourceText bytes := by simpa using nullByte
    exact iff_of_false (fun h => by cases h) fun h => h.1 inside
  · next noNullByte =>
    have absent : '\x00' ∉ sourceText bytes := by simpa using noNullByte
    split
    · next mark => exact iff_of_false (fun h => by cases h) fun h => h.2.1 mark
    · next noMark =>
      split
      · next tree parsed =>
        constructor
        · intro counted
          exact ⟨absent, noMark, tree, parsed, (Except.ok.inj counted).symm⟩
        · rintro ⟨-, -, tree', parsed', rfl⟩
          rw [parsed, Option.some.injEq] at parsed'
          rw [parsed']
      · next none =>
        refine iff_of_false (fun h => by cases h) ?_
        rintro ⟨-, -, tree, parsed, -⟩
        rw [none] at parsed
        cases parsed

namespace FileSystem

theorem tryCount_of_read (read : fs.read path = .ok bytes) :
    fs.tryCount path = (countSource bytes).mapError (.ofFlaw path) := by
  rw [FileSystem.tryCount, read]

/-- The path of the file of `loneFile`. -/
def lonePath : Path := ⟨[0x6c, 0x2e, 0x70, 0x79]⟩

/-- A working directory with one file. -/
def loneFile (bytes : Text.Bytes) : FileSystem where
  root := .directory [(lonePath.text, .file bytes)]
  working := []
  wellNamed := .directory ⟨List.forall_mem_singleton.2 (by decide : Path.Legal lonePath.text),
    List.pairwise_singleton _ _⟩ (List.forall_mem_singleton.2 (.file _))
  hasWorking := rfl

end FileSystem

end DefTally
