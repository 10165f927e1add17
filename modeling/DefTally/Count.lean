import DefTally.FileSystem.Resolve
import DefTally.Source.Definition
import DefTally.Source.Module
import DefTally.Text.LineBreak

/-!
# Counting a file

`countSource` counts the top-level functions of a source text given as bytes: bytes that are
no characters are dropped and line ends are made alike before the text is parsed.
`FileSystem.tryCount` counts a file, and `FileSystem.count` takes every failure for zero.
-/

namespace DefTally

open DefTally.FileSystem DefTally.Text

/-- The byte order mark, which no source may begin with. -/
def byteOrderMark : Char := '\ufeff'

/-- The characters that are parsed for the bytes of a source. -/
def sourceText (bytes : Bytes) : List Char := LineBreak.unify (Utf8.decodeKept bytes)

/-- What is wrong with a source. -/
inductive Flaw where
  | nullByte
  | malformed
  deriving DecidableEq, Repr

/-- How many top-level functions a source defines, or what is wrong with it. -/
def countSource (bytes : Bytes) : Except Flaw Nat :=
  let text := sourceText bytes
  if text.contains '\x00' then .error .nullByte
  else if text.head? = some byteOrderMark then .error .malformed
  else match Source.moduleTree? text with
    | some tree => .ok (Source.countDefinitions tree)
    | none => .error .malformed

/-- Why a file has no count. -/
inductive CountError where
  | unreadable (path : Path) (cause : Failure)
  | nullByte (path : Path)
  | malformed (path : Path)
  /-- The parser gave up, which it never does on its own account. -/
  | noTree (path : Path)
  deriving DecidableEq, Repr

namespace CountError

/-- The words for an error. -/
def message : CountError → String
  | unreadable path cause => "Failed to read file '" ++ path.shown ++ "': " ++ cause.message
  | nullByte path => "File '" ++ path.shown ++ "' contains a null byte"
  | malformed path => "File '" ++ path.shown ++ "' has a syntax error"
  | noTree path => "Parser produced no tree for '" ++ path.shown ++ "'"

/-- The words for an error and for what caused it, outermost first. -/
def chain (e : CountError) : List String :=
  e.message :: match e with
    | unreadable _ cause => [cause.message]
    | _ => []

/-- The error of a file whose source is flawed. -/
def ofFlaw (path : Path) : Flaw → CountError
  | .nullByte => nullByte path
  | .malformed => malformed path

end CountError

namespace FileSystem

/-- How many top-level functions a file defines, or why that is not known. -/
def tryCount (fs : FileSystem) (path : Path) : Except CountError Nat :=
  match fs.read path with
  | .error cause => .error (.unreadable path cause)
  | .ok bytes => (countSource bytes).mapError (.ofFlaw path)

/-- How many top-level functions a file defines; none if that is not known. -/
def count (fs : FileSystem) (path : Path) : Nat :=
  match fs.tryCount path with
  | .ok n => n
  | .error _ => 0

end FileSystem

end DefTally
