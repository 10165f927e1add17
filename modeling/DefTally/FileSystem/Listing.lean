import DefTally.FileSystem.Edit
import DefTally.Text.Split

/-!
# Listings

A listing describes a file system line by line. A line is a word for what to make and one or
two byte strings in hexadecimal: `directory` and a path, `file` and a path and its content,
`link` and a path and its target, `pipe` and a path, `shut` and the path of what cannot be
opened, `enter` and the path of the working directory. An empty byte string is written as a dash,
and empty lines are passed over.
-/

namespace DefTally.FileSystem

open DefTally.Text

namespace Listing

/-- The value of a lowercase hexadecimal digit. -/
def digit? (c : Char) : Option Nat :=
  if '0' ≤ c && c ≤ '9' then some (c.toNat - '0'.toNat)
  else if 'a' ≤ c && c ≤ 'f' then some (c.toNat - 'a'.toNat + 10)
  else none

/-- The bytes of pairs of hexadecimal digits. -/
def hexBytes? : List Char → Option Bytes
  | [] => some []
  | [_] => none
  | a :: b :: rest => do
    return UInt8.ofNat (16 * (← digit? a) + (← digit? b)) :: (← hexBytes? rest)

/-- The bytes that a word of a line stands for. -/
def bytes? (word : List Char) : Option Bytes := if word = ['-'] then some [] else hexBytes? word

/-- The file system after a line. -/
def addLine? (fs : FileSystem) (line : List Char) : Option FileSystem := do
  if line.isEmpty then return fs
  match splitAt ' ' line with
  | [] => none
  | word :: words =>
    match String.ofList word, (← words.mapM bytes?) with
    | "directory", [p] => some (fs.makeDirectory ⟨p⟩)
    | "file", [p, content] => some (fs.writeFile ⟨p⟩ content)
    | "link", [p, target] => some (fs.makeLink ⟨p⟩ ⟨target⟩)
    | "pipe", [p] => some (fs.makePipe ⟨p⟩)
    | "shut", [p] => some (fs.shut ⟨p⟩)
    | "enter", [p] => some (fs.enter ⟨p⟩)
    | _, _ => none

end Listing

/-- The file system that a listing describes, if it is one. -/
def ofListing? (listing : List Char) : Option FileSystem :=
  (splitAt '\n' listing).foldlM Listing.addLine? .empty

end DefTally.FileSystem
