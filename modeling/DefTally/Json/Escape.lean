import DefTally.Text.Slice

/-!
# Escapes in JSON strings

A string is written in printable ASCII. Quotes, backslashes and the controls below space are
cut out of it and get their short escapes, or a unit escape where they have none; in the
fragments between them the other characters that are not printable ASCII get unit escapes,
one for each UTF-16 unit. `escape` is the same character by character.
-/

namespace DefTally.Json

open DefTally.Text

/-- A lowercase hexadecimal digit. -/
def hexDigit (n : Nat) : Char := Nat.digitChar (n % 16)

/-- The escape of a UTF-16 unit, in four digits. -/
def unitEscape (unit : Nat) : List Char :=
  ['\\', 'u', hexDigit (unit / 4096), hexDigit (unit / 256), hexDigit (unit / 16), hexDigit unit]

/-- The UTF-16 units of a character: beyond the basic plane, a high and a low surrogate. -/
def units (c : Char) : List Nat :=
  if c.toNat < 0x10000 then [c.toNat]
  else [0xd800 + (c.toNat - 0x10000) / 0x400, 0xdc00 + (c.toNat - 0x10000) % 0x400]

/-- The letter of a short escape. -/
def shortEscape? (c : Char) : Option Char :=
  if c = '"' then some '"'
  else if c = '\\' then some '\\'
  else if c = '\x08' then some 'b'
  else if c = '\x0c' then some 'f'
  else if c = '\n' then some 'n'
  else if c = '\r' then some 'r'
  else if c = '\t' then some 't'
  else none

/-- The escape of a character that has one: a short one if there is, else its units. -/
def escapeOf (c : Char) : List Char :=
  match shortEscape? c with
  | some letter => ['\\', letter]
  | none => (units c).flatMap unitEscape

/-- A character that stands for itself in a string. -/
def isPlain (c : Char) : Bool := 0x20 ≤ c.toNat && c.toNat < 0x7f && c != '"' && c != '\\'

/-- A text as it is written in a string, character by character. -/
def escape (text : List Char) : List Char :=
  text.flatMap fun c => if isPlain c then [c] else escapeOf c

/-- A character that ends a fragment: a quote, a backslash or a control below space. -/
def endsFragment (c : Char) : Bool := c = '"' || c = '\\' || c.toNat < 0x20

/-- A character that stands for itself in a fragment. -/
def passesThrough (c : Char) : Bool := c.toNat < 0x7f

/-- The pieces of a fragment from a position on. The text that passes through is cut out of the
fragment, from `start`, where the last escape ended, to the next character to escape. -/
def fragmentFrom (fragment : List Char) (start index : Nat) : List Char → List (List Char)
  | [] => [(dropBytes? start fragment).getD []]
  | c :: rest =>
    let next := index + c.utf8Size
    if passesThrough c then fragmentFrom fragment start next rest
    else (slice? fragment start index).getD [] :: (units c).map unitEscape ++
      fragmentFrom fragment next next rest

/-- The pieces in which a fragment is written. -/
def fragmentPieces (fragment : List Char) : List (List Char) := fragmentFrom fragment 0 0 fragment

/-- A text cut at the characters that end fragments: the first fragment, and each of these
characters with the fragment that follows it. -/
def fragments : List Char → List Char × List (Char × List Char)
  | [] => ([], [])
  | c :: rest =>
    let (first, later) := fragments rest
    if endsFragment c then ([], (c, first) :: later) else (c :: first, later)

/-- The pieces in which a text is written in a string. -/
def textPieces (text : List Char) : List (List Char) :=
  let (first, later) := fragments text
  fragmentPieces first ++ later.flatMap fun (c, fragment) => escapeOf c :: fragmentPieces fragment

/-- The pieces in which a string is written. -/
def stringPieces (s : String) : List (List Char) := ['"'] :: textPieces s.toList ++ [['"']]

end DefTally.Json
