import DefTally.Proofs.Command.Contract
import DefTally.Proofs.Json.Printable

/-!
# Single lines

What is written of a value is printable ASCII, so the line feed after it is the only one (`OneLine`), and
the output of the command is one line for everybody who reads it line by line (`oneLine_output`).
-/

namespace DefTally

open DefTally.Json DefTally.Log DefTally.Output DefTally.Text

/-! ## Single lines -/

/-- Bytes are one line of printable ASCII, with its end. -/
def OneLine (bytes : Bytes) : Prop :=
  ∃ line, bytes = line ++ [lineFeed] ∧ ∀ b ∈ line, 0x20 ≤ b ∧ b ≤ 0x7e

/-- One line has one line feed. -/
theorem OneLine.count_lineFeed {bytes : Bytes} (one : OneLine bytes) : bytes.count lineFeed = 1 := by
  obtain ⟨line, rfl, printable⟩ := one
  have absent : lineFeed ∉ line := fun inside => absurd (printable _ inside).1 (by decide)
  rw [List.count_append, List.count_eq_zero.2 absent, List.count_singleton_self]

theorem oneLine_lineOf (v : Value) : OneLine (lineOf v.line) := ⟨_, rfl, (printable_line v).encode⟩

namespace Output

/-- A sink that accepts a line takes it all, in whatever pieces it is written. -/
theorem writePieces_of_accepts {s : Sink} {pieces : List Bytes}
    (accepts : s.Accepts (pieces.flatten ++ [lineFeed])) :
    writePieces s pieces = (s.keep (pieces.flatten ++ [lineFeed]), none) := by
  have room := (Sink.room_eq_length_iff (by simp)).2 accepts.1
  have whole := s.write_eq (pieces.flatten ++ [lineFeed])
  rw [if_pos room, room, List.take_length, Sink.write_append] at whole
  rw [writePieces, Sink.writeAll_eq]
  rcases first : s.write pieces.flatten with ⟨t, _ | reason⟩
  · rw [first] at whole
    have lineEnd : Writer.write t [lineFeed] = (s.keep (pieces.flatten ++ [lineFeed]), none) := whole
    have flush : Writer.flush (s.keep (pieces.flatten ++ [lineFeed])) = (_, none) :=
      congrArg (Prod.mk _) accepts.2
    simp only [lineEnd, flush]
  · rw [first] at whole
    cases whole

theorem writeLine_of_accepts {s : Sink} {v : Value} (accepts : s.Accepts (lineOf v.line)) :
    writeLine s v = (s.keep (lineOf v.line), none) := by
  have bytes : (v.pieces.map Utf8.encode).flatten ++ [lineFeed] = lineOf v.line :=
    congrArg (· ++ [lineFeed]) (flatten_encode v)
  rw [← bytes] at accepts ⊢
  exact writePieces_of_accepts accepts

end Output

/-- What is written is always one line. Every value has a line, and all bytes of it are printable ASCII.
A sink that accepts it gets exactly these bytes and a line feed, which is the only one and the last
byte, and nothing but the line feed is dropped from them where the line is taken as a text. So whatever
names the files below a folder have, and also where no folder is scanned, a standard output that takes
everything gets one line of printable ASCII, and that of the scan if there is one. -/
theorem oneLine_output :
    (∀ v : Value, render v = .ok v.line ∧ (∀ b ∈ Utf8.encode v.line.toList, 0x20 ≤ b ∧ b ≤ 0x7e) ∧
      (Utf8.encode v.line.toList ++ [lineFeed]).count lineFeed = 1 ∧
      ∀ s : Sink, s.Accepts (lineOf v.line) →
        writeLine s v = (s.keep (Utf8.encode v.line.toList ++ [lineFeed]), none)) ∧
    ∀ {parse : ArgumentParser}, parse.TakesValues →
      ∀ (reader : SettingReader) (i : Invocation) (fs : FileSystem) (stdout : Sink),
      stdout.accepted = [] → stdout.limit = none → stdout.flushFailure = none →
        OneLine (i.perform parse reader fs stdout).1.stdout ∧
        (i.perform parse reader fs stdout).1.stdout.count lineFeed = 1 ∧
        ∀ program folder, i.commandLine = [program, folder] → folder ≠ [] →
          (i.perform parse reader fs stdout).1.stdout =
            Utf8.encode (fs.scan ⟨folder⟩).toValue.line.toList ++ [lineFeed] := by
  refine ⟨fun v => ⟨render_eq v, (printable_line v).encode, (oneLine_lineOf v).count_lineFeed,
    fun s accepts => writeLine_of_accepts accepts⟩,
    fun takes reader i fs stdout empty unlimited flushes => ?_⟩
  have accepts : ∀ bytes, stdout.Accepts bytes := by
    refine fun bytes => ⟨fun l limited => ?_, flushes⟩
    rw [unlimited] at limited
    cases limited
  have printed := ((Invocation.run_prints reader i fs stdout).accepted (accepts _)).1
  rw [empty, List.nil_append] at printed
  have one := oneLine_lineOf (Invocation.printed fs (folders i.commandLine)).1
  rw [Invocation.perform_eq takes, printed]
  refine ⟨one, one.count_lineFeed, fun program folder single filled => ?_⟩
  have named : folders i.commandLine = [⟨folder⟩] :=
    Invocation.folders_eq_singleton_iff.2 ⟨filled, program, single⟩
  rw [named]
  rfl

/-- A directory with a dangling link whose name holds a line feed, a quote, a delete character and a byte
that is no text. -/
def unprintable : FileSystem where
  root := .directory [([0x0a, 0x22, 0x7f, 0xff, 0x2e, 0x70, 0x79], .link ⟨[0x78]⟩)]
  working := []
  wellNamed := by decide
  hasWorking := by decide

/-- The name of such a file is escaped. -/
theorem oneLine_output_unprintable :
    let result := (Invocation.perform .values .lenient ⟨[programName, Path.dot], []⟩ unprintable
      .unlimited).1
    ArgumentParser.values.TakesValues ∧ OneLine result.stdout ∧
    result.stdout = Utf8.encode "\x7b\"\\n\\\"\\u007f\\ufffd.py\": 0\x7d\n".toList := by
  have takes := ArgumentParser.values_takesValues
  obtain ⟨one, -, scanned⟩ := oneLine_output.2 takes .lenient ⟨[programName, Path.dot], []⟩ unprintable
    .unlimited rfl rfl rfl
  refine ⟨takes, one, (scanned programName Path.dot rfl (by decide)).trans ?_⟩
  decide +kernel

end DefTally
