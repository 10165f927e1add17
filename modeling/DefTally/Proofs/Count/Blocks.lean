import DefTally.Proofs.Count.Source
import DefTally.Proofs.Source.Series
import DefTally.Proofs.Text.Utf8

/-!
# Files made of blocks

A file that is a series of blocks has as many functions as there are counted blocks in it, in
whatever order they come; but one broken block anywhere, and the whole file is malformed
(`tryCount_of_blocks`).
-/

namespace DefTally

open DefTally.Source DefTally.Text

namespace Source

theorem textOf_plain (blocks : List Block) : ∀ c ∈ textOf blocks, Block.isPlain c = true := by
  intro c inside
  obtain ⟨b, -, inText⟩ := List.mem_flatMap.1 inside
  exact List.all_eq_true.1 b.plain c inText

/-- The file of a series of blocks is parsed as it was written. -/
theorem sourceText_textOf (blocks : List Block) :
    sourceText (Utf8.encode (textOf blocks)) = textOf blocks := by
  rw [sourceText, Utf8.decodeKept_encode]
  apply LineBreak.unify_of_cr_not_mem
  intro inside
  exact absurd (textOf_plain blocks _ inside) (by decide)

theorem countSource_textOf (blocks : List Block) :
    countSource (Utf8.encode (textOf blocks)) =
      if .broken ∈ blocks then .error .malformed else .ok (blocks.countP Block.isCounted) := by
  have noNull : '\x00' ∉ textOf blocks := by
    intro inside
    exact absurd (textOf_plain blocks _ inside) (by decide)
  have noMark : (textOf blocks).head? ≠ some byteOrderMark := by
    intro same
    exact absurd (textOf_plain blocks _ (List.mem_of_mem_head? same)) (by decide)
  obtain ⟨spoiled, sound⟩ := moduleTree?_textOf blocks
  split
  · next broken =>
    simp [countSource, sourceText_textOf, noNull, noMark, spoiled broken]
  · next whole =>
    obtain ⟨tree, parsed, count⟩ := sound whole
    rw [countSource_eq_ok_iff, sourceText_textOf]
    exact ⟨noNull, noMark, tree, parsed, count.symm⟩

end Source

namespace FileSystem

variable {fs : FileSystem} {path : Path} {blocks : List Block}

/-- A file made of blocks counts its counted blocks, or is malformed if one of them is broken. -/
theorem tryCount_of_blocks (read : fs.read path = .ok (Utf8.encode (textOf blocks))) :
    fs.tryCount path =
      if .broken ∈ blocks then .error (.malformed path) else .ok (blocks.countP Block.isCounted) := by
  rw [tryCount_of_read read, countSource_textOf]
  split
  · rfl
  · rfl

/-- A working directory with one file, made of blocks. -/
def withBlocks (blocks : List Block) : FileSystem := loneFile (Utf8.encode (textOf blocks))

theorem read_withBlocks (blocks : List Block) :
    (withBlocks blocks).read lonePath = .ok (Utf8.encode (textOf blocks)) := by
  rfl

/-- A file of two counted blocks and others, and the same file with a broken block in the middle. -/
theorem tryCount_withBlocks :
    (withBlocks [.nested 7, .loop, .decorated 40, .constant]).tryCount lonePath = .ok 2 ∧
    (withBlocks [.nested 7, .loop, .broken, .decorated 40, .constant]).tryCount lonePath =
      .error (.malformed lonePath) := by
  constructor
  · exact (tryCount_of_blocks (read_withBlocks _)).trans rfl
  · exact (tryCount_of_blocks (read_withBlocks _)).trans rfl

end FileSystem

end DefTally
