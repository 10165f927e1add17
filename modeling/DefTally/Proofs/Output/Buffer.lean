import DefTally.Proofs.Json.Printable
import DefTally.Proofs.Output.Blame

/-!
# Lines through a line buffer

A line buffer holds bytes back, but it loses none and keeps their order (`Holds`). So whatever pieces a
line is written in, it comes to the sink as if all of it were written at once (`writePieces_buffer`):
the sink has as much of it as there is room for, and the line is written just if the sink accepts all
of it (`writeLine_buffer`).
-/

namespace DefTally.Output

open DefTally.Json DefTally.Text

/-! ## Writes to a buffer -/

namespace LineBuffer

variable {s : Sink} {b : LineBuffer Sink} {written : Bytes}

/-- Of the bytes that were written to a buffer on a sink the last are held back, and the sink took the
others. -/
def Holds (s : Sink) (b : LineBuffer Sink) (written : Bytes) : Prop :=
  ∃ out, s.write out = (b.target, none) ∧ out ++ b.held = written

/-- How a write ends, with all that was written up to its end: the buffer holds it, or the sink refused
some of it. -/
inductive Ends (s : Sink) (written : Bytes) : LineBuffer Sink × Option String → Prop where
  | holds {b : LineBuffer Sink} (holds : Holds s b written) : Ends s written (b, none)
  | refused {t : Sink} {reason : String} (failed : s.write written = (t, some reason)) :
      Ends s written (⟨t, []⟩, some reason)

theorem holds_empty (s : Sink) : Holds s ⟨s, []⟩ [] := ⟨[], s.write_nil, rfl⟩

/-- Bytes that a sink refused, it refuses also with more of them. -/
theorem refused_append {t : Sink} {reason : String} (failed : s.write written = (t, some reason))
    (more : Bytes) : s.write (written ++ more) = (t, some reason) := by
  rw [Sink.write_append, failed]

theorem write_of_holds (holds : Holds s b written) (bytes : Bytes) :
    s.write (written ++ bytes) = b.target.write (b.held ++ bytes) := by
  obtain ⟨out, taken, rfl⟩ := holds
  rw [List.append_assoc, Sink.write_append, taken]

/-- A buffer that holds nothing back flushes its sink. -/
theorem flush_eq (s : Sink) : Writer.flush (⟨s, []⟩ : LineBuffer Sink) = (⟨s, []⟩, s.flushFailure) := by
  have nothing : Writer.write s ([] ++ []) = (s, none) := s.write_nil
  simp only [Writer.flush, release, nothing]

/-- A release writes everything. -/
theorem release_eq (holds : Holds s b written) (bytes : Bytes) :
    b.release bytes =
      (⟨(s.write (written ++ bytes)).1, []⟩, (s.write (written ++ bytes)).2) := by
  rw [write_of_holds holds]
  rfl

theorem ends_release (holds : Holds s b written) (bytes : Bytes) :
    Ends s (written ++ bytes) (b.release bytes) := by
  rw [release_eq holds]
  rcases taken : s.write (written ++ bytes) with ⟨t, _ | reason⟩
  · exact .holds ⟨_, taken, List.append_nil _⟩
  · exact .refused taken

theorem ends_write (holds : Holds s b written) (bytes : Bytes) :
    Ends s (written ++ bytes) (b.write bytes) := by
  rw [write]
  split
  · exact ends_release holds bytes
  split
  · obtain ⟨out, taken, rfl⟩ := holds
    exact .holds ⟨out, taken, (List.append_assoc _ _ _).symm⟩
  · rw [release_eq holds, List.append_nil]
    rcases taken : s.write written with ⟨t, _ | reason⟩
    · exact .holds ⟨written, taken, rfl⟩
    · exact .refused (refused_append taken bytes)

theorem ends_writeAll (pieces : List Bytes) : ∀ {b : LineBuffer Sink} {written : Bytes},
    Holds s b written → Ends s (written ++ pieces.flatten) (writeAll b pieces) := by
  induction pieces with
  | nil =>
    intro b written holds
    rw [List.flatten_nil, List.append_nil]
    exact .holds holds
  | cons bytes rest ih =>
    intro b written holds
    have first : Ends s (written ++ bytes) (Writer.write b bytes) := ends_write holds bytes
    rw [List.flatten_cons, ← List.append_assoc, writeAll]
    cases ended : Writer.write b bytes with
    | mk b' failure =>
      rw [ended] at first
      cases first with
      | holds holds => exact ih holds
      | refused failed => exact .refused (refused_append failed rest.flatten)

/-- Bytes without the end of a line are all held back, if they are not too many. -/
theorem writeAll_held (pieces : List Bytes) : ∀ b : LineBuffer Sink, lineFeed ∉ pieces.flatten →
    b.held.length + pieces.flatten.length ≤ capacity →
    writeAll b pieces = (⟨b.target, b.held ++ pieces.flatten⟩, none) := by
  induction pieces with
  | nil =>
    intro b _ _
    rw [writeAll, List.flatten_nil, List.append_nil]
  | cons bytes rest ih =>
    intro b unended short
    rw [List.flatten_cons, List.mem_append, not_or] at unended
    rw [List.flatten_cons, List.length_append] at short
    have first : Writer.write b bytes = (⟨b.target, b.held ++ bytes⟩, none) :=
      (if_neg (by simpa using unended.1)).trans (if_pos (by omega))
    have onward := ih ⟨b.target, b.held ++ bytes⟩ unended.2 (by rw [List.length_append]; omega)
    rw [writeAll, first, List.flatten_cons, ← List.append_assoc]
    exact onward

end LineBuffer

/-! ## Lines -/

namespace Sink

/-- There is room for bytes. -/
def Fits (s : Sink) (bytes : Bytes) : Prop := ∀ l ∈ s.limit, s.accepted.length + bytes.length ≤ l

/-- A sink takes bytes and lets itself be flushed. -/
def Accepts (s : Sink) (bytes : Bytes) : Prop := s.Fits bytes ∧ s.flushFailure = none

/-- A sink does not accept bytes, and the error says why. -/
def Refuses (s : Sink) (bytes : Bytes) (e : WriteError) : Prop :=
  ¬ s.Fits bytes ∧ e.stage ≠ .flush ∧ e.reason = s.refusal.text ∨
    s.Fits bytes ∧ e.stage = .flush ∧ s.flushFailure = some e.reason

theorem Refuses.not_accepts {s : Sink} {bytes : Bytes} {e : WriteError} (refuses : s.Refuses bytes e) :
    ¬ s.Accepts bytes := by
  rintro ⟨fits, flushes⟩
  rcases refuses with ⟨noRoom, -⟩ | ⟨-, -, failure⟩
  · exact noRoom fits
  · rw [flushes] at failure
    cases failure

theorem room_eq_length_iff {s : Sink} {bytes : Bytes} (filled : bytes ≠ []) :
    s.room bytes = bytes.length ↔ s.Fits bytes := by
  have positive : 0 < bytes.length := List.length_pos_iff.2 filled
  cases limited : s.limit with
  | none => simp [Fits, limited, room_of_unlimited limited]
  | some limit =>
    simp only [Fits, limited, room_of_limited limited, Option.mem_some_iff, forall_eq']
    omega

end Sink

/-- A line that is written through a buffer ends as if it were written to the sink at once. -/
theorem writePieces_buffer (s : Sink) (pieces : List Bytes) :
    ∃ failure, writePieces (⟨s, []⟩ : LineBuffer Sink) pieces =
        (⟨(s.write (pieces.flatten ++ [lineFeed])).1, []⟩, failure) ∧
      match (s.write (pieces.flatten ++ [lineFeed])).2 with
      | none => failure = s.flushFailure.map (⟨.flush, ·⟩)
      | some reason => ∃ stage, stage ≠ .flush ∧ failure = some ⟨stage, reason⟩ ∧
        (lineFeed ∉ pieces.flatten → pieces.flatten.length ≤ LineBuffer.capacity → stage ≠ .value) := by
  have value := LineBuffer.ends_writeAll pieces (LineBuffer.holds_empty s)
  rw [List.nil_append] at value
  rw [writePieces]
  cases ended : writeAll (⟨s, []⟩ : LineBuffer Sink) pieces with
  | mk b failure =>
    rw [ended] at value
    cases value with
    | refused failed =>
      rw [LineBuffer.refused_append failed]
      refine ⟨_, rfl, .value, by simp, rfl, fun unended short => ?_⟩
      rw [LineBuffer.writeAll_held pieces _ unended (by simpa using short)] at ended
      exact absurd (congrArg Prod.snd ended) (by simp)
    | holds holds =>
      have lineEnd : Writer.write b [lineFeed] = b.release [lineFeed] := rfl
      simp only [lineEnd, LineBuffer.release_eq holds]
      rcases taken : s.write (pieces.flatten ++ [lineFeed]) with ⟨t, _ | reason⟩
      · have same : t.flushFailure = s.flushFailure := by
          rw [Sink.write_eq] at taken
          exact (Prod.mk.inj taken).1 ▸ rfl
        simp only [LineBuffer.flush_eq, same]
        cases s.flushFailure with
        | none => exact ⟨_, rfl, rfl⟩
        | some reason => exact ⟨_, rfl, rfl⟩
      · exact ⟨_, rfl, .lineEnd, by simp, rfl, fun _ _ => by simp⟩

/-- A value's line goes through a buffer into a sink as far as there is room, and it is written just if
the sink accepts all of it. A line that fits into the buffer does not fail before its end. -/
theorem writeLine_buffer (s : Sink) (v : Value) :
    (writeLine (⟨s, []⟩ : LineBuffer Sink) v).1.target.accepted =
      s.accepted ++ (lineBytes v ++ [lineFeed]).take (s.room (lineBytes v ++ [lineFeed])) ∧
    match (writeLine (⟨s, []⟩ : LineBuffer Sink) v).2 with
    | none => s.Accepts (lineBytes v ++ [lineFeed])
    | some e => s.Refuses (lineBytes v ++ [lineFeed]) e ∧
      ((lineBytes v).length ≤ LineBuffer.capacity → e.stage ≠ .value) := by
  obtain ⟨failure, written, ends⟩ := writePieces_buffer s (v.pieces.map Utf8.encode)
  have unended : lineFeed ∉ lineBytes v := fun inside =>
    absurd ((printable_line v).encode _ inside).1 (by decide)
  rw [flatten_encode, Sink.write_eq] at written ends
  rw [writeLine, written]
  refine ⟨rfl, ?_⟩
  have room : s.room (lineBytes v ++ [lineFeed]) = (lineBytes v ++ [lineFeed]).length ↔
      s.Fits (lineBytes v ++ [lineFeed]) := Sink.room_eq_length_iff (by simp)
  by_cases fits : s.Fits (lineBytes v ++ [lineFeed])
  · rw [if_pos (room.2 fits)] at ends
    rw [show failure = _ from ends]
    cases flushes : s.flushFailure with
    | none => exact ⟨fits, flushes⟩
    | some reason => exact ⟨.inr ⟨fits, rfl, flushes⟩, fun _ => by simp⟩
  · rw [if_neg (fun all => fits (room.1 all))] at ends
    obtain ⟨stage, notFlush, rfl, later⟩ := ends
    exact ⟨.inl ⟨fits, notFlush, rfl⟩, later unended⟩

end DefTally.Output
