import DefTally.Grammar.Parser
import DefTally.Source.Layout
import DefTally.Source.Lexeme
import DefTally.Source.Syntax

/-!
# Modules

`moduleTree?` is the derivation tree of a module's text: `none` if the text cannot be derived
from the grammar. The cut into tokens and the derivation go together, because which tokens
are looked for at a place depends on what the grammar allows there.
-/

namespace DefTally.Source

open DefTally.Grammar

/-- A place in a text: what is left of it, how much came before, and the layout so far. -/
structure Place where
  rest : List Char
  offset : Nat
  layout : Layout

namespace Place

/-- The start of a text. -/
def start (text : List Char) : Place := ⟨text, 0, .outermost⟩

/-- The place a number of characters further on. -/
def forward (p : Place) (length : Nat) (layout : Layout) : Place :=
  ⟨p.rest.drop length, p.offset + length, layout⟩

/-- The next token among those that are expected, and the place after it. -/
def next (expects : Token → Bool) (p : Place) : Option (Token × Place) :=
  match p.layout.next expects p.rest with
  | some (token, length, layout) => some (token, p.forward length layout)
  | none =>
    (nextLexeme expects p.rest).map fun (token, length) => (token, p.forward length p.layout)

end Place

/-- How a module is cut into tokens. A keyword that cannot stand where it is may still be a
name there. -/
def moduleReader : Reader Place where
  next expects p := (p.next fun t => expects t.number).map fun (t, p) => (t.number, p)
  ignored t := (Token.ofNat t).isIgnored
  plain t := if (Token.ofNat t).isKeyword then some Token.name.number else none
  same p q := p.offset == q.offset && p.layout == q.layout

/-- The states of the grammar's automaton. -/
def moduleTable : Table := .build (.ofGrammar syntaxGrammar) 20000

/-- A bound on the tokens of a text: each character but the last takes part in one token at
most, brings one end of line, and opens one block, which is closed once. -/
def tokenBound (text : List Char) : Nat := 4 * (text.length + 2)

/-- The derivation tree of a module. -/
def moduleTree? (text : List Char) : Option Tree :=
  parse moduleTable.automaton moduleReader syntaxGrammar.productions.size (tokenBound text)
    (.start text)

end DefTally.Source
