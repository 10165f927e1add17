import DefTally.Count
import DefTally.Grammar.Memory

/-!
# Counters

A counter counts the sources of many files, one after the other, with one parser. What the parser
remembers while it cuts a text into tokens stays behind in the counter when the text is done, or
when it turns out to be malformed; `Counter.countSource` is `DefTally.countSource` with such a
parser.
-/

namespace DefTally

open DefTally.Grammar DefTally.Text

namespace Source

/-- The next token that depends on the layout, with the number of characters up to its end. The
layout is changed if there is one, and left alone if there is none. -/
def Layout.scan (expects : Token → Bool) (text : List Char) : StateM Layout (Option (Token × Nat)) :=
  fun l => match l.next expects text with
    | some (token, length, after) => (some (token, length), after)
    | none => (none, l)

/-- The next token among those that are expected, and the place after it. The layout that was saved
with the place is put into the memory first, and what the memory holds after a token that depends on
the layout is saved with the place after it. -/
def Place.nextIn (expects : Token → Bool) (p : Place) : StateM Layout (Option (Token × Place)) := do
  set p.layout
  match ← Layout.scan expects p.rest with
  | some (token, length) => return some (token, p.forward length (← get))
  | none =>
    return (nextLexeme expects p.rest).map fun (token, length) =>
      (token, p.forward length p.layout)

/-- How a module is cut into tokens in a memory. -/
def moduleTokenReader : TokenReader Place Layout := fun expects p => do
  return (← p.nextIn fun t => expects t.number).map fun (t, p) => (t.number, p)

/-- The derivation tree of a module. -/
def moduleTreeIn (text : List Char) : StateM Layout (Option Tree) :=
  parseIn moduleTable.automaton moduleReader moduleTokenReader syntaxGrammar.productions.size
    (tokenBound text) (.start text)

end Source

/-- What is left of a parser after the texts that it has parsed. -/
structure Counter where
  memory : Source.Layout
  deriving DecidableEq, Repr

namespace Counter

/-- A counter that has counted nothing. -/
def fresh : Counter := ⟨.outermost⟩

/-- The derivation tree of a module, and the counter after it was parsed. -/
def moduleTree? (text : List Char) (c : Counter) : Option Tree × Counter :=
  let (tree, memory) := Source.moduleTreeIn text c.memory
  (tree, ⟨memory⟩)

/-- How many top-level functions a source defines, or what is wrong with it. A source with a null
byte or a byte order mark does not come to the parser. -/
def countSource (bytes : Bytes) (c : Counter) : Except Flaw Nat × Counter :=
  let text := sourceText bytes
  if text.contains '\x00' then (.error .nullByte, c)
  else if text.head? = some byteOrderMark then (.error .malformed, c)
  else match c.moduleTree? text with
    | (some tree, c) => (.ok (Source.countDefinitions tree), c)
    | (none, c) => (.error .malformed, c)

end Counter

end DefTally
