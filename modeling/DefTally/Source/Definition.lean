import DefTally.Source.Module

/-!
# Top-level function definitions

A module's statements are the parts of its tree that are left when module, statement and
repetition nodes give way to their children. Those that define a function, with or without
decorators, are counted; coroutine definitions (`async`) are not.
-/

namespace DefTally.Source

open DefTally.Grammar

/-- The phrases that only hold a module's statements together. -/
def holdsStatements (p : Nat) : Bool :=
  p == Phrase.module.number || p == Phrase.statement.number ||
    syntaxGrammar.repetitions ≤ p

/-- The statements of a module. -/
def statements (tree : Tree) : List Tree := tree.within holdsStatements

/-- A node of the given phrase. -/
def isPhrase (p : Phrase) (tree : Tree) : Bool := tree.symbol = .phrase p.number

/-- The children of a node. -/
def children : Tree → List Tree
  | .leaf _ => []
  | .node _ ts => ts

/-- A function definition that is not a coroutine. -/
def isPlainDefinition (tree : Tree) : Bool :=
  isPhrase .functionDefinition tree &&
    !(children tree).any fun t => t.symbol = .token Token.kwAsync.number

/-- A statement that counts: a plain function definition, bare or decorated. -/
def isCounted (tree : Tree) : Bool :=
  isPlainDefinition tree ||
    (isPhrase .decoratedDefinition tree && (children tree).any isPlainDefinition)

/-- How many top-level functions a module defines. -/
def countDefinitions (tree : Tree) : Nat := (statements tree).countP isCounted

end DefTally.Source
