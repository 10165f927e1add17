import DefTally.Command
import DefTally.Proofs.Text.Utf8

/-!
# Writers that fail

A sink keeps what there is room for, however the bytes are cut into writes (`writeAll_eq`). So what
it holds after a line was written to it, and the stage that is blamed if it failed, follow from the
line and the room alone (`blamed_writePieces`); this is carried through the writing of a value and
the printing of a scan (`blamed_writeLine`).
-/

namespace DefTally.Output

open DefTally.Json DefTally.Text

/-- What is said of a write that was refused: the sink's own words, or that nothing was taken. -/
def Refusal.text : Refusal → String
  | failure reason => reason
  | nothingTaken => "failed to write whole buffer"

/-! ## Writes to a sink -/

namespace Sink

variable {s : Sink} {bytes : Bytes} {limit : Nat}

/-- The sink with more bytes in it. -/
def keep (s : Sink) (bytes : Bytes) : Sink := { s with accepted := s.accepted ++ bytes }

theorem room_of_unlimited (unlimited : s.limit = none) (bytes : Bytes) :
    s.room bytes = bytes.length := by
  rw [room, unlimited]

theorem room_of_limited (limited : s.limit = some limit) (bytes : Bytes) :
    s.room bytes = min bytes.length (limit - s.accepted.length) := by
  rw [room, limited]

theorem room_le (s : Sink) (bytes : Bytes) : s.room bytes ≤ bytes.length := by
  cases limited : s.limit with
  | none => exact Nat.le_of_eq (room_of_unlimited limited bytes)
  | some limit => exact Nat.le_trans (Nat.le_of_eq (room_of_limited limited bytes)) (Nat.min_le_left _ _)

/-- In a sink that has taken what there was room for, there is no room for the rest. -/
theorem room_keep (cut : s.room bytes < bytes.length) (rest : Bytes) :
    (s.keep (bytes.take (s.room bytes))).room rest = 0 := by
  cases limited : s.limit with
  | none =>
    rw [room_of_unlimited limited] at cut
    exact absurd cut (Nat.lt_irrefl _)
  | some limit =>
    have full : (s.keep (bytes.take (s.room bytes))).limit = some limit := limited
    rw [room_of_limited full]
    rw [room_of_limited limited] at cut ⊢
    simp only [keep, List.length_append, List.length_take]
    omega

/-- Where there is room for bytes, there is as much room for more as they leave. -/
theorem room_append_of_fits (fits : s.room bytes = bytes.length) (more : Bytes) :
    s.room (bytes ++ more) = bytes.length + (s.keep bytes).room more := by
  cases limited : s.limit with
  | none =>
    have still : (s.keep bytes).limit = none := limited
    rw [room_of_unlimited limited, room_of_unlimited still, List.length_append]
  | some limit =>
    have still : (s.keep bytes).limit = some limit := limited
    rw [room_of_limited limited] at fits ⊢
    rw [room_of_limited still]
    simp only [keep, List.length_append]
    omega

/-- Where there is no room for all bytes, there is none for more. -/
theorem room_append_of_cut (cut : s.room bytes ≠ bytes.length) (more : Bytes) :
    s.room (bytes ++ more) = s.room bytes := by
  cases limited : s.limit with
  | none => exact absurd (room_of_unlimited limited bytes) cut
  | some limit =>
    rw [room_of_limited limited] at cut ⊢
    rw [room_of_limited limited, List.length_append]
    omega

/-- Bytes that there is no room for are refused. -/
theorem write_of_no_room (filled : bytes ≠ []) (full : s.room bytes = 0) :
    s.write bytes = (s, some s.refusal.text) := by
  rw [write, if_neg (by simpa using filled), offer, if_pos full]
  cases s.refusal with
  | failure reason => rfl
  | nothingTaken => rfl

theorem write_nil (s : Sink) : s.write [] = (s, none) := by
  rw [write, List.isEmpty_nil, if_pos rfl]

/-- A write leaves in the sink what there was room for, and fails if that was not all. -/
theorem write_eq (s : Sink) (bytes : Bytes) :
    s.write bytes = (s.keep (bytes.take (s.room bytes)),
      if s.room bytes = bytes.length then none else some s.refusal.text) := by
  by_cases empty : bytes = []
  · subst empty
    simp [write_nil, keep, Nat.le_zero.1 (s.room_le [])]
  have atMost := s.room_le bytes
  have positive : 0 < bytes.length := List.length_pos_iff.2 empty
  cases taken : s.room bytes with
  | zero =>
    rw [write_of_no_room empty taken, if_neg (Nat.ne_of_lt positive)]
    simp [keep]
  | succ count =>
    have once : s.offer bytes = (s.keep (bytes.take (count + 1)), .ok (count + 1)) := by
      rw [offer, taken]
      rfl
    rw [write, if_neg (by simpa using empty), once]
    show (s.keep (bytes.take (count + 1))).write (bytes.drop (count + 1)) = _
    by_cases whole : count + 1 = bytes.length
    · have nothingLeft : bytes.drop (count + 1) = [] := List.drop_eq_nil_of_le (Nat.le_of_eq whole.symm)
      rw [nothingLeft, if_pos whole, write_nil]
    · have left : bytes.drop (count + 1) ≠ [] := by
        rw [Ne, List.drop_eq_nil_iff]
        omega
      have full : (s.keep (bytes.take (s.room bytes))).room (bytes.drop (count + 1)) = 0 :=
        room_keep (by omega) _
      rw [taken] at full
      rw [write_of_no_room left full, if_neg whole]
      rfl

/-- Two writes one after the other are one write of all their bytes. -/
theorem write_append (s : Sink) (a b : Bytes) :
    s.write (a ++ b) = match s.write a with
      | (t, none) => t.write b
      | failed => failed := by
  have atMost := s.room_le a
  rw [write_eq s a, write_eq s (a ++ b)]
  by_cases fits : s.room a = a.length
  · have later := room_append_of_fits fits b
    rw [if_pos fits, fits, List.take_length]
    show _ = (s.keep a).write b
    have all : a.length + (s.keep a).room b = (a ++ b).length ↔ (s.keep a).room b = b.length := by
      rw [List.length_append]
      exact Nat.add_left_cancel_iff
    rw [write_eq, later, List.take_length_add_append]
    simp only [all]
    simp [keep]
  · have notAll : s.room a ≠ (a ++ b).length := by
      rw [List.length_append]
      omega
    rw [room_append_of_cut fits, if_neg fits, if_neg notAll, List.take_append_of_le_length atMost]

/-- However bytes are cut into writes, a sink takes them as it takes them all at once. -/
theorem writeAll_eq (s : Sink) (pieces : List Bytes) : writeAll s pieces = s.write pieces.flatten := by
  induction pieces generalizing s with
  | nil => rw [writeAll, List.flatten_nil, write_nil]
  | cons bytes rest ih =>
    have first : Writer.write s bytes = s.write bytes := rfl
    rw [writeAll, List.flatten_cons, write_append, first]
    rcases s.write bytes with ⟨t, _ | reason⟩
    · exact ih t
    · rfl

end Sink

/-! ## Lines -/

/-- How the writing of a line ends at a sink that was empty: what the sink holds then and, if it
failed, the chain of errors, with what is said before the stage that failed. -/
structure Blamed (limit : Option Nat) (refusal : Refusal) (flushFailure : Option String)
    (line : Bytes) (before : List String) (accepted : Bytes) (chain : Option (List String)) :
    Prop where
  /-- The sink holds as much of the line and its end as it has room for. -/
  accepted : accepted = (line ++ [lineFeed]).take (limit.getD (line.length + 1))
  succeeds : chain = none ↔ (∀ l ∈ limit, line.length + 1 ≤ l) ∧ flushFailure = none
  inValue : ∀ text, chain = some (before ++ ["Failed to serialize output", text]) ↔
    (∃ l ∈ limit, l < line.length) ∧ text = refusal.text
  atLineEnd : ∀ text, chain = some (before ++ ["Failed to write output", text]) ↔
    limit = some line.length ∧ text = refusal.text
  atFlush : ∀ text, chain = some (before ++ ["Failed to flush output", text]) ↔
    (∀ l ∈ limit, line.length + 1 ≤ l) ∧ flushFailure = some text

section Lines

variable {limit : Option Nat} {refusal : Refusal} {flushFailure : Option String}

/-- A line that there is room for is kept with its end, and then the sink is flushed. -/
theorem writePieces_of_fits {pieces : List Bytes}
    (fits : ∀ l ∈ limit, pieces.flatten.length + 1 ≤ l) :
    writePieces (Sink.mk [] limit refusal flushFailure) pieces =
      (⟨pieces.flatten ++ [lineFeed], limit, refusal, flushFailure⟩,
        flushFailure.map (⟨.flush, ·⟩)) := by
  have all : ∀ accepted bytes : Bytes, accepted.length + bytes.length ≤ pieces.flatten.length + 1 →
      (Sink.mk accepted limit refusal flushFailure).write bytes =
        (⟨accepted ++ bytes, limit, refusal, flushFailure⟩, none) := by
    intro accepted bytes short
    have room : (Sink.mk accepted limit refusal flushFailure).room bytes = bytes.length := by
      cases limit with
      | none => exact Sink.room_of_unlimited rfl bytes
      | some l =>
        have := fits l rfl
        rw [Sink.room_of_limited rfl]
        refine Nat.min_eq_left ?_
        show bytes.length ≤ l - accepted.length
        omega
    rw [Sink.write_eq, room, if_pos rfl, List.take_length]
    rfl
  have line := all [] pieces.flatten (by simp)
  have lineEnd : Writer.write (Sink.mk pieces.flatten limit refusal flushFailure) [lineFeed] = _ :=
    all pieces.flatten [lineFeed] (Nat.le_refl _)
  rw [writePieces, Sink.writeAll_eq, line]
  simp only [List.nil_append, lineEnd]
  cases flushFailure with
  | none => rfl
  | some reason => rfl

/-- A line that there is just no room for the end of is kept, and its end is refused. -/
theorem writePieces_of_full {pieces : List Bytes} :
    writePieces (Sink.mk [] (some pieces.flatten.length) refusal flushFailure) pieces =
      (⟨pieces.flatten, some pieces.flatten.length, refusal, flushFailure⟩,
        some ⟨.lineEnd, refusal.text⟩) := by
  generalize length : pieces.flatten.length = n
  have room : (Sink.mk [] (some n) refusal flushFailure).room pieces.flatten =
      pieces.flatten.length := by
    rw [Sink.room_of_limited rfl]
    exact Nat.min_eq_left (by simp [length])
  have lineEnd : Writer.write (Sink.mk pieces.flatten (some n) refusal flushFailure) [lineFeed] = _ :=
    Sink.write_of_no_room (List.cons_ne_nil _ _) (by rw [Sink.room_of_limited rfl]; simp [length])
  rw [writePieces, Sink.writeAll_eq, Sink.write_eq, room, if_pos rfl, List.take_length]
  simp only [Sink.keep, List.nil_append, lineEnd]

/-- A line that there is no room for is kept up to the limit, and the rest is refused. -/
theorem writePieces_of_cut {pieces : List Bytes} {l : Nat} (cut : l < pieces.flatten.length) :
    writePieces (Sink.mk [] (some l) refusal flushFailure) pieces =
      (⟨pieces.flatten.take l, some l, refusal, flushFailure⟩, some ⟨.value, refusal.text⟩) := by
  have room : (Sink.mk [] (some l) refusal flushFailure).room pieces.flatten = l := by
    rw [Sink.room_of_limited rfl]
    exact Nat.min_eq_right (Nat.le_of_lt cut)
  rw [writePieces, Sink.writeAll_eq, Sink.write_eq, room, if_neg (Nat.ne_of_lt cut)]
  rfl

/-- Chains of errors tell the stages apart. -/
theorem chain_eq_iff {before : List String} {e : WriteError} (stage : Stage) {text : String} :
    some (before ++ e.chain) = some (before ++ [stage.message, text]) ↔
      e.stage = stage ∧ text = e.reason := by
  have apart : ∀ a b : Stage, a.message = b.message → a = b := by
    rintro (_ | _ | _) (_ | _ | _) same
    all_goals first | rfl | exact absurd same (by decide)
  simp only [Option.some.injEq, List.append_cancel_left_eq, WriteError.chain, List.cons.injEq, and_true]
  exact ⟨fun same => ⟨apart _ _ same.1, same.2.symm⟩, fun same => ⟨by rw [same.1], same.2.symm⟩⟩

/-- A line that is written without an error. -/
theorem Blamed.success {line accepted : Bytes} (before : List String)
    (held : accepted = (line ++ [lineFeed]).take (limit.getD (line.length + 1)))
    (fits : ∀ l ∈ limit, line.length + 1 ≤ l) :
    Blamed limit refusal none line before accepted none where
  accepted := held
  succeeds := by simpa using fits
  inValue text := by
    refine iff_of_false (by simp) ?_
    rintro ⟨⟨l, same, cut⟩, -⟩
    have := fits l same
    omega
  atLineEnd text := by
    refine iff_of_false (by simp) ?_
    rintro ⟨same, -⟩
    have := fits _ same
    omega
  atFlush text := by simp

/-- A line that is written with an error in the stage that the room in the sink tells. -/
theorem Blamed.failure {line accepted : Bytes} {e : WriteError} (before : List String)
    (held : accepted = (line ++ [lineFeed]).take (limit.getD (line.length + 1)))
    (value : e.stage = .value ↔ ∃ l ∈ limit, l < line.length)
    (lineEnd : e.stage = .lineEnd ↔ limit = some line.length)
    (flush : e.stage = .flush ↔ ∀ l ∈ limit, line.length + 1 ≤ l)
    (refused : e.stage ≠ .flush → e.reason = refusal.text)
    (flushed : e.stage = .flush → flushFailure = some e.reason) :
    Blamed limit refusal flushFailure line before accepted (some (before ++ e.chain)) where
  accepted := held
  succeeds := by
    refine iff_of_false (by simp) ?_
    rintro ⟨fits, none⟩
    exact absurd (none.symm.trans (flushed (flush.2 fits))) (by simp)
  inValue text := by
    rw [← value]
    refine (chain_eq_iff .value).trans (and_congr_right fun stage => ?_)
    rw [refused (by simp [stage])]
  atLineEnd text := by
    rw [← lineEnd]
    refine (chain_eq_iff .lineEnd).trans (and_congr_right fun stage => ?_)
    rw [refused (by simp [stage])]
  atFlush text := by
    rw [← flush]
    refine (chain_eq_iff .flush).trans (and_congr_right fun stage => ?_)
    rw [flushed stage, Option.some.injEq]
    exact eq_comm

/-- What was written of a line and which stage is blamed follow from the line and the room, in
whatever pieces the line was written. -/
theorem blamed_writePieces (pieces : List Bytes) (before : List String) :
    Blamed limit refusal flushFailure pieces.flatten before
      (writePieces (Sink.mk [] limit refusal flushFailure) pieces).1.accepted
      ((writePieces (Sink.mk [] limit refusal flushFailure) pieces).2.map (before ++ ·.chain)) := by
  by_cases fits : ∀ l ∈ limit, pieces.flatten.length + 1 ≤ l
  · have held : pieces.flatten ++ [lineFeed] =
        (pieces.flatten ++ [lineFeed]).take (limit.getD (pieces.flatten.length + 1)) := by
      refine (List.take_of_length_le ?_).symm
      rw [List.length_append, List.length_singleton]
      cases limit with
      | none => exact Nat.le_refl _
      | some l => exact fits l rfl
    rw [writePieces_of_fits fits]
    cases flushFailure with
    | none => exact .success before held fits
    | some reason =>
      refine .failure before held ?_ ?_ ⟨fun _ => fits, fun _ => rfl⟩ (fun no => absurd rfl no)
        (fun _ => rfl)
      · refine iff_of_false (by simp) ?_
        rintro ⟨l, same, cut⟩
        have := fits l same
        omega
      · refine iff_of_false (by simp) ?_
        intro same
        have := fits _ same
        omega
  · obtain ⟨l, rfl, short⟩ : ∃ l, limit = some l ∧ l ≤ pieces.flatten.length := by
      cases limit with
      | none => exact absurd (by simp) fits
      | some l => exact ⟨l, rfl, by simpa [Nat.lt_succ_iff] using fits⟩
    rcases Nat.lt_or_eq_of_le short with cut | rfl
    · rw [writePieces_of_cut cut]
      refine .failure before (List.take_append_of_le_length short).symm ?_ ?_ ?_ (fun _ => rfl)
        (fun no => by cases no)
      · exact iff_of_true rfl ⟨l, rfl, cut⟩
      · exact iff_of_false (by simp) (by simpa using Nat.ne_of_lt cut)
      · exact iff_of_false (by simp) fits
    · rw [writePieces_of_full]
      refine .failure before (by simp) ?_ ?_ ?_ (fun _ => rfl) (fun no => by cases no)
      · exact iff_of_false (by simp) (by simp)
      · exact iff_of_true rfl rfl
      · exact iff_of_false (by simp) fits

end Lines

/-- The bytes of a value's line, without the end of the line. -/
def lineBytes (v : Value) : Bytes := Utf8.encode v.line.toList

theorem flatten_encode (v : Value) : (v.pieces.map Utf8.encode).flatten = lineBytes v := by
  rw [lineBytes, Value.line, String.toList_ofList, Utf8.flatten_map_encode]

/-- A sink that takes everything takes the line of a value and its end. -/
theorem writeLine_unlimited (v : Value) :
    writeLine Sink.unlimited v = (⟨lineBytes v ++ [lineFeed], none, .nothingTaken, none⟩, none) := by
  rw [← flatten_encode]
  exact writePieces_of_fits (fun l no => by cases no)

/-- Every value has a line as a text. -/
theorem render_eq (v : Value) : render v = .ok v.line := by
  rw [render, writeLine_unlimited]
  simp only [List.dropLast_concat, lineBytes, Utf8.decode?_encode, String.ofList_toList]

theorem blamed_writeLine_value (limit : Option Nat) (refusal : Refusal)
    (flushFailure : Option String) (v : Value) (before : List String) :
    Blamed limit refusal flushFailure (lineBytes v) before
      (writeLine (Sink.mk [] limit refusal flushFailure) v).1.accepted
      ((writeLine (Sink.mk [] limit refusal flushFailure) v).2.map (before ++ ·.chain)) := by
  rw [← flatten_encode]
  exact blamed_writePieces _ before

/-- The chain of errors of a print that failed. -/
def chainOf? : Except PrintError Outcome → Option (List String)
  | .ok _ => none
  | .error e => some e.chain

/-- Writing the line of a value, in whatever pieces, leaves in an empty sink what there is room for
and blames the stage that failed. Printing does the same with the line of a scan, where it names
the folder before the stage, and with the line that says that a folder is required. -/
theorem blamed_writeLine (limit : Option Nat) (refusal : Refusal) (flushFailure : Option String) :
    let sink : Sink := ⟨[], limit, refusal, flushFailure⟩
    (∀ v : Value,
      Blamed limit refusal flushFailure (lineBytes v) [] (writeLine sink v).1.accepted
        ((writeLine sink v).2.map WriteError.chain)) ∧
    (∀ pieces : List Bytes,
      Blamed limit refusal flushFailure pieces.flatten [] (writePieces sink pieces).1.accepted
        ((writePieces sink pieces).2.map WriteError.chain)) ∧
    (∀ (fs : FileSystem) (folder : Path),
      Blamed limit refusal flushFailure (lineBytes (fs.scan folder).toValue)
        ["Failed to print scan of " ++ folder.shown] (fs.print [folder] sink).1.accepted
        (chainOf? (fs.print [folder] sink).2) ∧
      (fs.print [folder] sink).2 ≠ .ok .usageError) ∧
    ∀ (fs : FileSystem) (folders : List Path), folders.length ≠ 1 →
      Blamed limit refusal flushFailure (lineBytes ErrorReport.folderPathRequired.toValue) []
        (fs.print folders sink).1.accepted (chainOf? (fs.print folders sink).2) ∧
      (fs.print folders sink).2 ≠ .ok .scanned := by
  intro sink
  refine ⟨fun v => blamed_writeLine_value limit refusal flushFailure v [],
    fun pieces => blamed_writePieces pieces [], fun fs folder => ?_, fun fs folders notOne => ?_⟩
  · have blamed := blamed_writeLine_value limit refusal flushFailure (fs.scan folder).toValue
      ["Failed to print scan of " ++ folder.shown]
    rw [FileSystem.print]
    rcases written : writeLine sink (fs.scan folder).toValue with ⟨after, _ | e⟩
    · rw [written] at blamed
      exact ⟨blamed, by simp⟩
    · rw [written] at blamed
      exact ⟨blamed, by simp⟩
  · have blamed := blamed_writeLine_value limit refusal flushFailure
      ErrorReport.folderPathRequired.toValue []
    rw [FileSystem.print]
    · rcases written : writeLine sink ErrorReport.folderPathRequired.toValue with ⟨after, _ | e⟩
      · rw [written] at blamed
        exact ⟨blamed, by simp⟩
      · rw [written] at blamed
        exact ⟨blamed, by simp⟩
    · rintro folder rfl
      exact notOne rfl

/-- A sink that takes five bytes cuts an escape, and one that takes all of the line that says that a
folder is required refuses its end. -/
theorem blamed_writeLine_cut :
    (writeLine (Sink.mk [] (some 5) .nothingTaken none) (.string "\u00e9")).1.accepted =
      Utf8.encode "\"\\u00".toList ∧
    ([] : List Path).length ≠ 1 ∧
    chainOf? (FileSystem.empty.print [] (Sink.mk [] (some 33) .nothingTaken none)).2 =
      some ["Failed to write output", "failed to write whole buffer"] := by
  have notOne : ([] : List Path).length ≠ 1 := by decide
  refine ⟨?_, notOne, ?_⟩
  · exact ((blamed_writeLine (some 5) .nothingTaken none).1 (.string "\u00e9")).accepted.trans (by decide)
  · have usage := (blamed_writeLine (some 33) .nothingTaken none).2.2.2 .empty [] notOne
    exact (usage.1.atLineEnd _).2 ⟨by decide, rfl⟩

end DefTally.Output
