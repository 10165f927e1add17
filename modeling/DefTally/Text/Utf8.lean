/-!
# UTF-8

`encode` writes a text as bytes, and the rest of this file reads bytes as text.
`segment` cuts a byte string into well-formed sequences and junk. A piece of junk is as long
as it can be a beginning of a well-formed sequence, and one byte long where there is none.
The two decoders differ only in what they put for junk: `decodeKept` drops it, `decodeLossy`
puts a replacement character.
-/

namespace DefTally.Text

/-- A byte string. -/
abbrev Bytes := List UInt8

namespace Utf8

/-- The bytes of a text. -/
def encode (text : List Char) : Bytes := text.flatMap String.utf8EncodeChar

/-- A piece of a byte string: a character, or bytes that belong to none. -/
inductive Piece where
  | scalar (c : Char)
  | junk (bytes : Bytes)
  deriving DecidableEq, Repr

/-- An inclusive range of byte values. -/
structure Range where
  low : UInt8
  high : UInt8
  deriving DecidableEq, Repr

/-- Membership in a range. -/
def Range.has (r : Range) (b : UInt8) : Bool := r.low ≤ b && b ≤ r.high

/-- Any continuation byte. -/
def continuation : Range := ⟨0x80, 0xbf⟩

/-- The ranges of the bytes that follow a first byte in a well-formed sequence; `none` if no
sequence begins with the byte. Overlong forms, surrogates and values beyond U+10FFFF are
excluded by the second byte. -/
def trail (b : UInt8) : Option (List Range) :=
  if b < 0x80 then some []
  else if b < 0xc2 then none
  else if b < 0xe0 then some [continuation]
  else if b = 0xe0 then some [⟨0xa0, 0xbf⟩, continuation]
  else if b = 0xed then some [⟨0x80, 0x9f⟩, continuation]
  else if b < 0xf0 then some [continuation, continuation]
  else if b = 0xf0 then some [⟨0x90, 0xbf⟩, continuation, continuation]
  else if b < 0xf4 then some [continuation, continuation, continuation]
  else if b = 0xf4 then some [⟨0x80, 0x8f⟩, continuation, continuation]
  else none

/-- The value that the continuation bytes add to that of the first byte. -/
def accumulate (value : Nat) (bytes : Bytes) : Nat :=
  bytes.foldl (fun v b => v * 64 + b.toNat % 64) value

/-- The character of a well-formed sequence. -/
def scalarOf : Bytes → Char
  | [] => '\ufffd'
  | [a] => Char.ofNat a.toNat
  | [a, b] => Char.ofNat (accumulate (a.toNat % 32) [b])
  | [a, b, c] => Char.ofNat (accumulate (a.toNat % 16) [b, c])
  | a :: rest => Char.ofNat (accumulate (a.toNat % 8) rest)

/-- A sequence that is not complete: the bytes so far and the ranges of those that are
missing. -/
structure Partial where
  read : Bytes
  missing : List Range
  deriving DecidableEq, Repr

/-- The piece that is complete, or the sequence that is not, after bytes that fit. -/
def close (read : Bytes) (missing : List Range) : Piece ⊕ Partial :=
  if missing.isEmpty then .inl (.scalar (scalarOf read)) else .inr ⟨read, missing⟩

/-- What a byte begins. -/
def opening (b : UInt8) : Piece ⊕ Partial :=
  match trail b with
  | none => .inl (.junk [b])
  | some ranges => close [b] ranges

/-- What a byte makes of an incomplete sequence, if it fits. -/
def Partial.add (p : Partial) (b : UInt8) : Option (Piece ⊕ Partial) :=
  match p.missing with
  | r :: rest => if r.has b then some (close (p.read ++ [b]) rest) else none
  | [] => none

/-- Cuts the bytes that come after an incomplete sequence. -/
def segmentFrom : Option Partial → Bytes → List Piece
  | none, [] => []
  | some p, [] => [.junk p.read]
  | none, b :: rest =>
    match opening b with
    | .inl piece => piece :: segmentFrom none rest
    | .inr p => segmentFrom (some p) rest
  | some p, b :: rest =>
    match p.add b with
    | some (.inl piece) => piece :: segmentFrom none rest
    | some (.inr q) => segmentFrom (some q) rest
    | none =>
      .junk p.read :: match opening b with
        | .inl piece => piece :: segmentFrom none rest
        | .inr q => segmentFrom (some q) rest

/-- The pieces of a byte string, in order. -/
def segment (bytes : Bytes) : List Piece := segmentFrom none bytes

/-- The character of a piece, if it is one. -/
def Piece.kept? : Piece → Option Char
  | scalar c => some c
  | junk _ => none

/-- The character that stands for a piece. -/
def Piece.shown : Piece → Char
  | scalar c => c
  | junk _ => '\ufffd'

/-- The characters of a byte string, without junk. -/
def decodeKept (bytes : Bytes) : List Char := (segment bytes).filterMap Piece.kept?

/-- The characters of a byte string, with a replacement character for each piece of junk. -/
def decodeLossy (bytes : Bytes) : List Char := (segment bytes).map Piece.shown

/-- The characters of a byte string without junk. -/
def decode? (bytes : Bytes) : Option (List Char) := (segment bytes).mapM Piece.kept?

end Utf8

end DefTally.Text
