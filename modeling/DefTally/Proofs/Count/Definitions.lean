import DefTally.Proofs.Count.Blocks
import DefTally.Proofs.Source.Statements

/-!
# The count of a file

A file that can be counted has as many functions as there are plain definitions among the tokens
of its module (`tryCount_eq_plainDefinitions`): what is counted does not depend on the shape of
the tree that the parser found.
-/

namespace DefTally.FileSystem

open DefTally.Source

variable {fs : FileSystem} {path : Path} {bytes : Text.Bytes} {n : Nat}

/-- The count of a file is the number of plain definitions among the tokens of its tree. -/
theorem tryCount_eq_plainDefinitions (read : fs.read path = .ok bytes)
    (counted : fs.tryCount path = .ok n) :
    ∃ tree, moduleTree? (sourceText bytes) = some tree ∧ n = plainDefinitions (tokensOf tree) := by
  rw [tryCount_of_read read] at counted
  cases count : countSource bytes with
  | error flaw =>
    rw [count] at counted
    cases counted
  | ok m =>
    rw [count] at counted
    cases counted
    obtain ⟨-, -, tree, parsed, rfl⟩ := countSource_eq_ok_iff.1 count
    obtain ⟨derived, isModule⟩ := moduleTree?_derived parsed
    exact ⟨tree, parsed, Derived.countDefinitions_eq derived isModule⟩

/-- A class and a conditional definition are not counted, a definition after them is. -/
theorem tryCount_eq_plainDefinitions_withBlocks :
    (withBlocks [.classWithMethod, .conditional, .asynchronous 1, .decorated 2]).tryCount lonePath =
      .ok 1 ∧
    ∃ tree, moduleTree? (sourceText (Text.Utf8.encode (textOf
        [.classWithMethod, .conditional, .asynchronous 1, .decorated 2]))) = some tree ∧
      1 = plainDefinitions (tokensOf tree) := by
  have counted : (withBlocks [.classWithMethod, .conditional, .asynchronous 1, .decorated 2]).tryCount
      lonePath = .ok 1 := by
    rw [tryCount_of_read (read_withBlocks _), countSource_textOf]
    rfl
  exact ⟨counted, tryCount_eq_plainDefinitions (read_withBlocks _) counted⟩

end DefTally.FileSystem
