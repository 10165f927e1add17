import DefTally.Json.Line
import DefTally.Output.Writer

/-!
# Writing a JSON line

A value is written piece by piece, then the end of its line, then all is flushed. An error
tells in which of the three stages the writer failed, and what it said. `render` is the line as a
text, read back from what was written.
-/

namespace DefTally.Output

open DefTally.Json DefTally.Text

/-- A stage of writing a line. -/
inductive Stage where
  | value
  | lineEnd
  | flush
  deriving DecidableEq, Repr

/-- What is said when a stage fails. -/
def Stage.message : Stage → String
  | value => "Failed to serialize output"
  | lineEnd => "Failed to write output"
  | flush => "Failed to flush output"

/-- Why a line was not written. -/
structure WriteError where
  stage : Stage
  reason : String
  deriving DecidableEq, Repr

/-- The words for an error and its cause, outermost first. -/
def WriteError.chain (e : WriteError) : List String := [e.stage.message, e.reason]

/-- Writes the pieces of a line one after the other, then the end of the line, and flushes. -/
def writePieces {α : Type} [Writer α] (w : α) (pieces : List Bytes) : α × Option WriteError :=
  match writeAll w pieces with
  | (w, some reason) => (w, some ⟨.value, reason⟩)
  | (w, none) =>
    match Writer.write w [lineFeed] with
    | (w, some reason) => (w, some ⟨.lineEnd, reason⟩)
    | (w, none) =>
      match Writer.flush w with
      | (w, some reason) => (w, some ⟨.flush, reason⟩)
      | (w, none) => (w, none)

/-- Writes a value as one line. -/
def writeLine {α : Type} [Writer α] (w : α) (v : Value) : α × Option WriteError :=
  writePieces w (v.pieces.map Utf8.encode)

/-- Why a value has no line. -/
inductive RenderError where
  | unwritten (cause : WriteError)
  | notText
  deriving DecidableEq, Repr

/-- The words for an error, outermost first. -/
def RenderError.chain : RenderError → List String
  | unwritten cause => cause.chain
  | notText => ["Serialized output is not UTF-8"]

/-- A value as the line that is written for it, without the end of the line. -/
def render (v : Value) : Except RenderError String :=
  match writeLine Sink.unlimited v with
  | (_, some cause) => .error (.unwritten cause)
  | (sink, none) =>
    match Utf8.decode? sink.accepted.dropLast with
    | some text => .ok (String.ofList text)
    | none => .error .notText

end DefTally.Output
