import DefTally.Counter
import DefTally.Proofs.Grammar.Memory

/-!
# Counters that were used before

The layout of a place is put back before the next token is read there, so tokens are read as they
are without a memory (`moduleTokenReader_readsAs`), and a counter counts a source as a fresh one
does, whatever it has counted before, malformed sources among it (`Counter.countSource_fst`).
-/

namespace DefTally

open DefTally.Grammar DefTally.Source

namespace Source

theorem steady_nextIn (expects : Token → Bool) (p : Place) :
    Steady (p.nextIn expects) (p.next expects) := by
  refine .afterSet ?_
  rw [Place.next]
  cases found : p.layout.next expects p.rest with
  | none =>
    have scanned : Layout.scan expects p.rest p.layout = (none, p.layout) := by
      rw [Layout.scan, found]
    simp only [bind, StateT.bind, scanned]
    rfl
  | some next =>
    obtain ⟨token, length, after⟩ := next
    have scanned : Layout.scan expects p.rest p.layout = (some (token, length), after) := by
      rw [Layout.scan, found]
    simp only [bind, StateT.bind, scanned]
    rfl

theorem moduleTokenReader_readsAs : ReadsAs moduleTokenReader moduleReader :=
  fun _ p => (steady_nextIn _ p).bind (.pure _)

theorem steady_moduleTreeIn (text : List Char) : Steady (moduleTreeIn text) (moduleTree? text) :=
  steady_parseIn moduleTokenReader_readsAs _ _

end Source

namespace Counter

theorem moduleTree?_fst (text : List Char) (c : Counter) :
    (c.moduleTree? text).1 = Source.moduleTree? text :=
  steady_moduleTreeIn text c.memory

/-- A counter counts a source as it is counted alone, whatever the counter was used for before. -/
theorem countSource_fst (bytes : Text.Bytes) (c : Counter) :
    (c.countSource bytes).1 = DefTally.countSource bytes := by
  unfold countSource DefTally.countSource
  dsimp only
  split
  · rfl
  split
  · rfl
  · have tree := moduleTree?_fst (sourceText bytes) c
    rcases parsed : c.moduleTree? (sourceText bytes) with ⟨_ | found, after⟩
    · rw [parsed] at tree
      rw [← tree]
    · rw [parsed] at tree
      rw [← tree]

end Counter

end DefTally
