import DefTally.Text.Utf8

/-!
# Writers

Something that bytes are written to. A write may take a part of its bytes and fail: the writer
keeps what it took, and says why it failed. A `Sink` takes a number of bytes and no more, and a
write to it offers the bytes again and again until all are taken or none is (`Sink.write`); a
`LineBuffer` holds bytes back until a line is complete.
-/

namespace DefTally.Output

open DefTally.Text

variable {α : Type}

/-- What bytes can be written to. A write and a flush leave the writer as it is afterwards and
the reason why they failed, if they did. -/
class Writer (α : Type) where
  write : α → Bytes → α × Option String
  flush : α → α × Option String

/-- Writes one thing after the other until a write fails. -/
def writeAll [Writer α] (w : α) : List Bytes → α × Option String
  | [] => (w, none)
  | bytes :: rest =>
    match Writer.write w bytes with
    | (w, none) => writeAll w rest
    | (w, some reason) => (w, some reason)

/-- How a sink refuses bytes that there is no room for. -/
inductive Refusal where
  /-- It fails and says why. -/
  | failure (reason : String)
  /-- It succeeds and takes nothing. -/
  | nothingTaken

/-- The answer to bytes that are refused: a reason, or the number of bytes that were taken. -/
def Refusal.answer : Refusal → Except String Nat
  | failure reason => .error reason
  | nothingTaken => .ok 0

/-- What is said of a write whose bytes were offered and not one was taken. -/
def nothingTakenReason : String := "failed to write whole buffer"

/-- A writer that keeps what it takes. -/
structure Sink where
  accepted : Bytes
  /-- How many bytes it takes in all. -/
  limit : Option Nat
  refusal : Refusal
  /-- Why a flush fails, if it does. -/
  flushFailure : Option String

namespace Sink

/-- A sink that takes everything. -/
def unlimited : Sink := ⟨[], none, .nothingTaken, none⟩

/-- A device that takes nothing. -/
def fullDevice : Sink := ⟨[], some 0, .failure "No space left on device (os error 28)", none⟩

/-- How many of some bytes there is room for. -/
def room (s : Sink) (bytes : Bytes) : Nat :=
  match s.limit with
  | none => bytes.length
  | some limit => min bytes.length (limit - s.accepted.length)

/-- Offers bytes once. The sink takes as many as there is room for, and tells how many; if there
is room for none of them, they are refused. -/
def offer (s : Sink) (bytes : Bytes) : Sink × Except String Nat :=
  if s.room bytes = 0 then (s, s.refusal.answer)
  else ({ s with accepted := s.accepted ++ bytes.take (s.room bytes) }, .ok (s.room bytes))

/-- Offers bytes, and what is left of them, until there is nothing left or nothing is taken. -/
def write (s : Sink) (bytes : Bytes) : Sink × Option String :=
  if bytes.isEmpty then (s, none)
  else match s.offer bytes with
    | (s, .error reason) => (s, some reason)
    | (s, .ok 0) => (s, some nothingTakenReason)
    | (s, .ok (count + 1)) => s.write (bytes.drop (count + 1))
termination_by bytes.length
decreasing_by
  have some : bytes ≠ [] := by simpa using ‹¬bytes.isEmpty = true›
  have := List.length_pos_iff.2 some
  simp only [List.length_drop]
  omega

instance : Writer Sink where
  write := write
  flush s := (s, s.flushFailure)

end Sink

/-- The byte that ends a line. -/
def lineFeed : UInt8 := 0x0a

/-- A writer that holds bytes back until a line ends or there are too many of them. What ends a
line goes out with all that was held back. -/
structure LineBuffer (α : Type) where
  target : α
  held : Bytes

namespace LineBuffer

/-- How many bytes are held back. -/
def capacity : Nat := 1024

/-- Writes what is held back and some more. -/
def release [Writer α] (b : LineBuffer α) (bytes : Bytes) : LineBuffer α × Option String :=
  let (target, reason) := Writer.write b.target (b.held ++ bytes)
  (⟨target, []⟩, reason)

/-- Holds bytes back, or writes them with all that was held back. -/
def write [Writer α] (b : LineBuffer α) (bytes : Bytes) : LineBuffer α × Option String :=
  if bytes.contains lineFeed then b.release bytes
  else if b.held.length + bytes.length ≤ capacity then (⟨b.target, b.held ++ bytes⟩, none)
  else match b.release [] with
    | (b, none) => (⟨b.target, bytes⟩, none)
    | failed => failed

instance [Writer α] : Writer (LineBuffer α) where
  write := write
  flush b := match b.release [] with
    | (b, none) => let (target, reason) := Writer.flush b.target; (⟨target, []⟩, reason)
    | failed => failed

end LineBuffer

end DefTally.Output
