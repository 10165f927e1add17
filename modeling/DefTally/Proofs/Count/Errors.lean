import DefTally.Proofs.Count.LineEnds
import DefTally.Proofs.Process.Run
import DefTally.Proofs.Text.Reference

/-!
# Why a file has no count

Sources are checked when they are decoded and their lines are made alike, but what they are checked for
can be told from their bytes: a source text has a null byte just where the bytes have one
(`nul_mem_sourceText_iff`), and begins with a mark just where nothing but junk comes before one
(`head?_sourceText_iff`). So the error of a file is told from its bytes as well (`tryCount_classified`).
-/

namespace DefTally

open DefTally.Source DefTally.Text

variable {bytes : Bytes} {text : List Char}

/-! ## Line ends -/

section Unify

variable {c : Char}

/-- Making line ends alike neither takes nor makes other characters. -/
theorem mem_unify_iff (notFeed : c ≠ '\n') (notCarriage : c ≠ '\r') :
    c ∈ LineBreak.unify text ↔ c ∈ text := by
  fun_induction LineBreak.unify text with
  | case1 => rfl
  | case2 rest ih => simp [ih, notFeed, notCarriage]
  | case3 rest _ ih => simp [ih, notFeed, notCarriage]
  | case4 d rest _ _ ih => simp [ih]

theorem head?_unify_iff (notFeed : c ≠ '\n') (notCarriage : c ≠ '\r') :
    (LineBreak.unify text).head? = some c ↔ text.head? = some c := by
  fun_induction LineBreak.unify text with
  | case1 => rfl
  | case2 rest _ => simp [notFeed.symm, notCarriage.symm]
  | case3 rest _ _ => simp [notFeed.symm, notCarriage.symm]
  | case4 d rest _ _ _ => simp

end Unify

/-! ## Null bytes -/

theorem nul_mem_ascii_iff : 0 ∈ Utf8.ascii bytes ↔ 0 ∈ bytes := by
  simp [Utf8.ascii]

theorem nul_mem_encodeChar_iff {c : Char} : 0 ∈ String.utf8EncodeChar c ↔ c = '\x00' := by
  constructor
  · intro inside
    obtain ⟨lead, later, ranges, whole, known, fits⟩ :=
      Utf8.wellFormed_iff.1 (Utf8.wellFormed_encodeChar c)
    have notLater : 0 ∉ later := by
      rw [← nul_mem_ascii_iff, Utf8.ascii_of_fits known fits]
      exact List.not_mem_nil
    rw [whole] at inside
    obtain rfl : 0 = lead := (List.mem_cons.1 inside).resolve_right notLater
    cases known
    cases fits
    have read := Utf8.decodeKept_encode [c]
    rw [Utf8.encode, List.flatMap_singleton, whole] at read
    exact (List.cons.inj read).1.symm
  · rintro rfl
    decide

theorem nul_mem_encode_iff : 0 ∈ Utf8.encode text ↔ '\x00' ∈ text := by
  rw [Utf8.encode, List.mem_flatMap]
  constructor
  · rintro ⟨c, inside, nul⟩
    exact nul_mem_encodeChar_iff.1 nul ▸ inside
  · exact fun inside => ⟨_, inside, nul_mem_encodeChar_iff.2 rfl⟩

/-- A source text has a null byte just if its bytes have one. -/
theorem nul_mem_sourceText_iff : '\x00' ∈ sourceText bytes ↔ 0 ∈ bytes := by
  rw [sourceText, mem_unify_iff (by decide) (by decide), ← nul_mem_encode_iff, ← nul_mem_ascii_iff,
    Utf8.encode_decodeKept, (Utf8.cuts_segment bytes).ascii_eq.1, nul_mem_ascii_iff]

/-! ## Marks -/

/-- Bytes that begin with a byte order mark, apart from bytes that decode to nothing. -/
def Marked (bytes : Bytes) : Prop :=
  ∃ junk rest, Utf8.decodeKept junk = [] ∧ bytes = junk ++ [0xef, 0xbb, 0xbf] ++ rest

theorem encode_eq_nil_iff : Utf8.encode text = [] ↔ text = [] := by
  constructor
  · intro nothing
    have read := Utf8.decodeKept_encode text
    rw [nothing] at read
    exact read.symm
  · rintro rfl
    rfl

/-- What comes before the first character of a byte string decodes to nothing. -/
theorem exists_of_head?_decodeKept {c : Char} (first : (Utf8.decodeKept bytes).head? = some c) :
    ∃ junk rest, Utf8.decodeKept junk = [] ∧ bytes = junk ++ String.utf8EncodeChar c ++ rest := by
  obtain ⟨later, text⟩ := List.head?_eq_some_iff.1 first
  obtain ⟨before, piece, after, pieces, dropped, kept, -⟩ := List.filterMap_eq_cons_iff.1 text
  have isChar : piece = .scalar c := by
    cases piece with
    | scalar d => exact congrArg _ (Option.some.inj kept)
    | junk _ => cases kept
  have cuts := Utf8.cuts_segment bytes
  rw [pieces, isChar, List.map_append] at cuts
  obtain ⟨junk, found, rfl, cutBefore, cutAfter⟩ := cuts.part
  generalize whole : (Utf8.Piece.scalar c :: after).map Utf8.Piece.fragment = fragments at cutAfter
  cases cutAfter with
  | nil => cases whole
  | cut => cases whole
  | @kept s rest _ _ _ =>
    cases whole
    refine ⟨junk, rest, encode_eq_nil_iff.1 ?_, (List.append_assoc _ _ _).symm⟩
    rw [Utf8.encode_decodeKept, (Utf8.cuts_segment junk).unique cutBefore, List.flatMap_map,
      List.flatMap_eq_nil_iff]
    intro piece inside
    cases piece with
    | scalar d => cases dropped _ inside
    | junk _ => rfl

/-- A source text begins with a mark just if its bytes are marked. -/
theorem head?_sourceText_iff : (sourceText bytes).head? = some byteOrderMark ↔ Marked bytes := by
  have mark : String.utf8EncodeChar byteOrderMark = [0xef, 0xbb, 0xbf] := by decide
  rw [sourceText, head?_unify_iff (by decide) (by decide)]
  constructor
  · intro first
    obtain ⟨junk, rest, nothing, whole⟩ := exists_of_head?_decodeKept first
    exact ⟨junk, rest, nothing, by rw [whole, mark]⟩
  · rintro ⟨junk, rest, nothing, rfl⟩
    rw [List.append_assoc, ← mark,
      Utf8.decodeKept_append junk (Utf8.fresh_encodeChar byteOrderMark rest), nothing, Utf8.decodeKept,
      Utf8.segment, Utf8.segmentFrom_encodeChar]
    rfl

/-! ## Errors -/

/-- A source has a null byte just if it is said to have one. -/
theorem countSource_eq_nullByte_iff : countSource bytes = .error .nullByte ↔ 0 ∈ bytes := by
  rw [← nul_mem_sourceText_iff, countSource]
  by_cases nul : '\x00' ∈ sourceText bytes
  · simp [nul]
  · simp only [List.contains_iff_mem, nul, if_false, iff_false]
    split
    · decide
    · split <;> simp

/-- What a source without a null byte comes to: nothing if it is marked, and else what its text is
parsed to. -/
theorem countSource_of_noNul (noNul : 0 ∉ bytes) : countSource bytes =
    if (sourceText bytes).head? = some byteOrderMark then .error .malformed
    else match moduleTree? (sourceText bytes) with
      | some tree => .ok (countDefinitions tree)
      | none => .error .malformed := by
  rw [← nul_mem_sourceText_iff] at noNul
  have missing : ¬ (sourceText bytes).contains '\x00' = true := by simpa using noNul
  exact if_neg missing

namespace FileSystem

variable {fs : FileSystem} {path : Path}

/-- Errors are told from the bytes of a file. A file that cannot be read has an error that says why,
and no other file has one of that kind. A file that can be read has a null byte error just if there is
a null byte anywhere in it. Without a null byte, it is malformed if it begins with a byte order mark,
bytes aside that decode to nothing; else just if there is no tree for its text, which is decoded and
has its line ends made alike; and if there is a tree, it has a count. A count that does not say why it
failed is that count, and zero for every error, whichever counter is used. -/
theorem tryCount_classified (fs : FileSystem) (path : Path) :
    (∀ named cause, fs.tryCount path = .error (.unreadable named cause) ↔
      named = path ∧ fs.read path = .error cause) ∧
    (∀ bytes, fs.read path = .ok bytes →
      (fs.tryCount path = .error (.nullByte path) ↔ 0 ∈ bytes) ∧
      (0 ∉ bytes → Marked bytes → fs.tryCount path = .error (.malformed path)) ∧
      (0 ∉ bytes → ¬ Marked bytes →
        (fs.tryCount path = .error (.malformed path) ↔
          moduleTree? (LineBreak.unify (Utf8.decodeKept bytes)) = none) ∧
        ∀ tree, moduleTree? (LineBreak.unify (Utf8.decodeKept bytes)) = some tree →
          fs.tryCount path = .ok (countDefinitions tree))) ∧
    (∀ n, fs.tryCount path = .ok n → fs.count path = n) ∧
    (∀ error, fs.tryCount path = .error error → fs.count path = 0) ∧
    ∀ (c : Counter) (p : Process), p.fileSystem = fs →
      (Process.tryCount path c p).1.1 = fs.tryCount path ∧
      (Process.count path c p).1.1 = fs.count path ∧
      (Process.countAlone path p).1 = fs.count path := by
  refine ⟨fun named cause => ?_, fun bytes read => ?_, fun n counted => ?_, fun error failed => ?_,
    fun c p own => ?_⟩
  · cases read : fs.read path with
    | error cause' => simp [tryCount, read, eq_comm]
    | ok bytes =>
      rw [tryCount_of_read read]
      cases countSource bytes with
      | ok n => simp [Except.mapError]
      | error flaw => cases flaw <;> simp [Except.mapError, CountError.ofFlaw]
  · have text : LineBreak.unify (Utf8.decodeKept bytes) = sourceText bytes := rfl
    rw [tryCount_of_read read, text, ← head?_sourceText_iff]
    refine ⟨?_, fun noNul mark => ?_, fun noNul noMark => ⟨?_, fun tree parsed => ?_⟩⟩
    · rw [← countSource_eq_nullByte_iff]
      rcases countSource bytes with flaw | n
      · cases flaw <;> simp [Except.mapError, CountError.ofFlaw]
      · simp [Except.mapError]
    · rw [countSource_of_noNul noNul, if_pos mark]
      rfl
    · rw [countSource_of_noNul noNul, if_neg noMark]
      cases moduleTree? (sourceText bytes) <;> simp [Except.mapError, CountError.ofFlaw]
    · rw [countSource_of_noNul noNul, if_neg noMark, parsed]
      rfl
  · rw [count, counted]
  · rw [count, failed]
  · subst own
    obtain ⟨_, tried⟩ := Process.settles_tryCount c
    obtain ⟨_, counted⟩ := Process.settles_count path c
    rw [tried, counted, Process.countAlone_eq path]
    exact ⟨rfl, rfl, rfl⟩

/-- A mark after two bytes of a sequence of three, without and with a null byte at the end. -/
theorem tryCount_classified_marked :
    0 ∉ [0xe2, 0x82, 0xef, 0xbb, 0xbf] ∧ Marked [0xe2, 0x82, 0xef, 0xbb, 0xbf] ∧
    (loneFile [0xe2, 0x82, 0xef, 0xbb, 0xbf]).tryCount lonePath = .error (.malformed lonePath) ∧
    (loneFile [0xe2, 0x82, 0xef, 0xbb, 0xbf]).count lonePath = 0 ∧
    (loneFile [0xe2, 0x82, 0xef, 0xbb, 0xbf, 0]).tryCount lonePath = .error (.nullByte lonePath) := by
  have marked : Marked [0xe2, 0x82, 0xef, 0xbb, 0xbf] := ⟨[0xe2, 0x82], [], by decide, rfl⟩
  obtain ⟨-, ofBytes, -, isZero, -⟩ :=
    tryCount_classified (loneFile [0xe2, 0x82, 0xef, 0xbb, 0xbf]) lonePath
  obtain ⟨-, ofBytes', -⟩ := tryCount_classified (loneFile [0xe2, 0x82, 0xef, 0xbb, 0xbf, 0]) lonePath
  have malformed := (ofBytes _ rfl).2.1 (by decide) marked
  exact ⟨by decide, marked, malformed, isZero _ malformed, (ofBytes' _ rfl).1.2 (by decide)⟩

end FileSystem

end DefTally
