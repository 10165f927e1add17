import DefTally.Proofs.Count.Source
import DefTally.Proofs.Source.Ended
import DefTally.Proofs.Text.LineEnds

/-!
# Files with other line ends and other bytes

A file has the same count, or the same kind of error, whatever its lines end in and whatever bytes
that decode to nothing stand between its characters (`tryCount_lines`). The last line may lack its
end: that makes no difference either, unless the line ends in a backslash (`tryCount_joined`).
-/

namespace DefTally

open DefTally.Source DefTally.Text

/-- The kinds of error, whatever the file. -/
inductive CountError.Kind where
  | unreadable
  | nullByte
  | malformed
  | noTree
  deriving DecidableEq, Repr

/-- What kind an error is. -/
def CountError.kind : CountError → Kind
  | unreadable _ _ => .unreadable
  | nullByte _ => .nullByte
  | malformed _ => .malformed
  | noTree _ => .noTree

/-- Lines that all end in a line feed, but for a last line that had no end and whose backslash would
join the next line to it. -/
def plainText (lines : List Line) (last : Option Line) : List Char :=
  feedText lines ++ last.elim [] fun l =>
    if l.text.getLast? = some '\\' then l.text else l.text ++ ['\n']

variable {fs fs' : FileSystem} {path path' : Path} {bytes bytes' : Bytes}
  {lines : List (Line × LineEnd)} {last : Option Line} {junk : Nat → Bytes} {text : List Char}

/-! ## Sources -/

theorem countSource_congr (same : sourceText bytes' = sourceText bytes) :
    countSource bytes' = countSource bytes := by
  rw [countSource, countSource, same]

/-- A line feed after a source changes nothing, unless the source ends in a backslash. -/
theorem countSource_concat (unjoined : Unjoined (sourceText bytes))
    (longer : sourceText bytes' = sourceText bytes ++ ['\n']) :
    countSource bytes' = countSource bytes := by
  have null : (sourceText bytes').contains '\x00' = (sourceText bytes).contains '\x00' := by
    rw [longer, Bool.eq_iff_iff]
    simp
  have mark : (sourceText bytes').head? = some byteOrderMark ↔
      (sourceText bytes).head? = some byteOrderMark := by
    rw [longer]
    cases sourceText bytes with
    | nil => decide
    | cons c rest => exact Iff.rfl
  have tree : moduleTree? (sourceText bytes') = moduleTree? (sourceText bytes) := by
    rw [longer, moduleTree?_concat unjoined]
  simp only [countSource, null, mark, tree]

theorem unjoined_feedText (lines : List Line) {t : List Char} (h : Unjoined t) :
    Unjoined (feedText lines ++ t) := by
  intro ends
  rw [List.getLast?_append] at ends
  cases last : t.getLast? with
  | some c =>
    rw [last, Option.some_or] at ends
    exact h (last.trans ends)
  | none =>
    rw [last, Option.none_or] at ends
    rcases List.eq_nil_or_concat lines with rfl | ⟨front, l, rfl⟩
    · cases ends
    · simp [feedText] at ends

/-- The text that is parsed for lines with scattered bytes. -/
theorem sourceText_scattered (separate : Separate lines)
    (nothing : ∀ n, Utf8.decodeKept (junk n) = []) :
    sourceText (scattered junk 0 (linesText lines last)) =
      feedText (lines.map Prod.fst) ++ last.elim [] Line.text := by
  rw [sourceText, decodeKept_scattered nothing, unify_linesText separate]

theorem cr_not_mem_feedText (lines : List Line) : '\r' ∉ feedText lines := by
  intro inside
  obtain ⟨l, -, among⟩ := List.mem_flatMap.1 inside
  rcases List.mem_append.1 among with inText | inEnd
  · exact l.noCarriage inText
  · cases List.mem_singleton.1 inEnd

theorem sourceText_plainText (lines : List Line) (last : Option Line) :
    sourceText (Utf8.encode (plainText lines last)) = plainText lines last := by
  rw [sourceText, Utf8.decodeKept_encode]
  apply LineBreak.unify_of_cr_not_mem
  intro inside
  rcases List.mem_append.1 inside with inLines | inLast
  · exact cr_not_mem_feedText lines inLines
  · cases last with
    | none => cases inLast
    | some l =>
      have among : '\r' ∈ l.text ++ ['\n'] := by
        simp only [Option.elim_some] at inLast
        split at inLast
        · exact List.mem_append_left _ inLast
        · exact inLast
      rcases List.mem_append.1 among with inText | inEnd
      · exact l.noCarriage inText
      · cases List.mem_singleton.1 inEnd

/-- Line ends and scattered bytes do not change the count of a source. -/
theorem countSource_scattered (separate : Separate lines)
    (nothing : ∀ n, Utf8.decodeKept (junk n) = []) :
    countSource (scattered junk 0 (linesText lines last)) =
      countSource (Utf8.encode (plainText (lines.map Prod.fst) last)) := by
  have messy : sourceText (scattered junk 0 (linesText lines last)) =
      feedText (lines.map Prod.fst) ++ last.elim [] Line.text := sourceText_scattered separate nothing
  have plain := sourceText_plainText (lines.map Prod.fst) last
  cases last with
  | none => exact countSource_congr (messy.trans plain.symm)
  | some l =>
    by_cases joins : l.text.getLast? = some '\\'
    · apply countSource_congr
      rw [messy, plain, plainText, Option.elim_some, Option.elim_some, if_pos joins]
    · refine (countSource_concat ?_ ?_).symm
      · rw [messy]
        exact unjoined_feedText _ joins
      · rw [messy, plain, plainText, Option.elim_some, Option.elim_some, if_neg joins,
          List.append_assoc]

/-! ## Files -/

namespace FileSystem

/-- A file has the same count, or the same kind of error, as the file of its lines that all end in line
feeds, whatever bytes that decode to nothing are scattered in it. -/
theorem tryCount_lines (separate : Separate lines) (nothing : ∀ n, Utf8.decodeKept (junk n) = [])
    (read : fs.read path = .ok (scattered junk 0 (linesText lines last)))
    (read' : fs'.read path' = .ok (Utf8.encode (plainText (lines.map Prod.fst) last))) :
    (fs.tryCount path).mapError CountError.kind = (fs'.tryCount path').mapError CountError.kind := by
  rw [tryCount_of_read read, tryCount_of_read read', countSource_scattered separate nothing]
  cases countSource (Utf8.encode (plainText (lines.map Prod.fst) last)) with
  | ok n => rfl
  | error flaw => cases flaw <;> rfl

/-- A definition whose lines end in a carriage return and in both, before a line without an end, with
parts of sequences among the characters. -/
theorem tryCount_lines_mixed :
    ((loneFile (scattered (fun n => if n % 2 = 0 then [0xe2, 0x82] else [0xff]) 0 (linesText
        [(⟨"def f():".toList, by decide, by decide⟩, .carriage),
          (⟨"    pass".toList, by decide, by decide⟩, .both)]
        (some ⟨['x'], by decide, by decide⟩)))).tryCount lonePath).mapError CountError.kind =
      ((loneFile (Utf8.encode (plainText
        [⟨"def f():".toList, by decide, by decide⟩, ⟨"    pass".toList, by decide, by decide⟩]
        (some ⟨['x'], by decide, by decide⟩)))).tryCount lonePath).mapError CountError.kind := by
  refine tryCount_lines (by decide) (fun n => ?_) rfl rfl
  split
  · decide
  · decide

/-- A last line that ends in a backslash, without an end and with a line feed. -/
theorem tryCount_joined :
    ((loneFile (scattered (fun _ => []) 0 (linesText []
        (some ⟨['x', ' ', '\\'], by decide, by decide⟩)))).tryCount lonePath).mapError
          CountError.kind = .error .malformed ∧
      ((loneFile (Utf8.encode (feedText [⟨['x', ' ', '\\'], by decide, by decide⟩]))).tryCount
        lonePath).mapError CountError.kind = .ok 0 := by
  obtain ⟨malformed, tree, parsed, count⟩ := moduleTree?_joined
  constructor
  · have source : sourceText (scattered (fun _ => []) 0 (linesText []
        (some ⟨['x', ' ', '\\'], by decide, by decide⟩))) = ['x', ' ', '\\'] :=
      sourceText_scattered (by decide) (fun _ => rfl)
    have counted : countSource (scattered (fun _ => []) 0 (linesText []
        (some ⟨['x', ' ', '\\'], by decide, by decide⟩))) = .error .malformed := by
      simp [countSource, source, malformed, byteOrderMark]
    rw [tryCount_of_read rfl, counted]
    rfl
  · have source : sourceText (Utf8.encode (feedText [⟨['x', ' ', '\\'], by decide, by decide⟩])) =
        ['x', ' ', '\\', '\n'] := sourceText_plainText [⟨['x', ' ', '\\'], by decide, by decide⟩] none
    have counted : countSource (Utf8.encode (feedText [⟨['x', ' ', '\\'], by decide, by decide⟩])) =
        .ok 0 := by
      rw [countSource_eq_ok_iff, source]
      exact ⟨by decide, by decide, tree, parsed, count.symm⟩
    rw [tryCount_of_read rfl, counted]
    rfl

end FileSystem

end DefTally
