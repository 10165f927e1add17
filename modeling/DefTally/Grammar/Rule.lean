/-!
# Grammar rules and their productions

A grammar is written as one `Rule` per kind of phrase: tokens, phrases, sequences,
alternatives, repetitions and marks of precedence. `Rule.expansions` turns a rule without
repetitions into its finite list of step sequences, and `Step` carries the precedence and
associativity that later settle conflicts. Tokens and phrases are numbers, so that the
engine knows nothing about the language that is parsed.
-/

namespace DefTally.Grammar

/-- A grammar symbol: a token or a kind of phrase, by number. -/
inductive Symbol where
  | token (t : Nat)
  | phrase (p : Nat)
  deriving DecidableEq, Hashable, Repr

/-- The side to which an operator of equal precedence groups. -/
inductive Associativity where
  | left
  | right
  deriving DecidableEq, Hashable, Repr

/-- A rule of the grammar. -/
inductive Rule where
  | blank
  | token (t : Nat)
  | phrase (p : Nat)
  | seq (first second : Rule)
  | alt (first second : Rule)
  | many1 (body : Rule)
  | ranked (precedence : Int) (associativity : Option Associativity) (body : Rule)
  deriving DecidableEq, Repr

namespace Rule

/-- The rules one after the other. -/
def chain : List Rule → Rule
  | [] => blank
  | [r] => r
  | r :: rs => seq r (chain rs)

/-- Any one of the rules. -/
def oneOf : List Rule → Rule
  | [] => blank
  | [r] => r
  | r :: rs => alt r (oneOf rs)

/-- The rule or nothing. -/
def optional (r : Rule) : Rule := alt r blank

/-- The rule any number of times. -/
def many (r : Rule) : Rule := optional (many1 r)

/-- The rule at least once, with a separator between two occurrences. -/
def sepBy1 (r separator : Rule) : Rule := seq r (many (seq separator r))

end Rule

/-- A symbol of a production, with the precedence and associativity in force where it stands. -/
structure Step where
  symbol : Symbol
  precedence : Int
  associativity : Option Associativity
  deriving DecidableEq, Repr

/-- A production: a kind of phrase and the steps that may make it up. -/
structure Production where
  head : Nat
  body : List Step
  deriving DecidableEq, Repr

/-- Gives the last step the precedence and associativity of the rule around it. -/
def Step.regradeLast (precedence : Int) (associativity : Option Associativity) :
    List Step → List Step
  | [] => []
  | [s] => [{ s with precedence, associativity }]
  | s :: ss => s :: regradeLast precedence associativity ss

namespace Rule

/-- The step sequences of a rule in a context of given precedence and associativity.
`atEnd` tells whether the rule ends its production: the last step of a ranked rule keeps
the rank of that rule only there. A repetition has to be named before (`Naming.strip`). -/
def expansions (precedence : Int) (associativity : Option Associativity) (atEnd : Bool) :
    Rule → List (List Step)
  | blank => [[]]
  | token t => [[⟨.token t, precedence, associativity⟩]]
  | phrase p => [[⟨.phrase p, precedence, associativity⟩]]
  | seq a b =>
    (expansions precedence associativity false a).flatMap fun xs =>
      (expansions precedence associativity atEnd b).map fun ys => xs ++ ys
  | alt a b =>
    expansions precedence associativity atEnd a ++ expansions precedence associativity atEnd b
  | many1 _ => []
  | ranked p side r =>
    let inner := expansions p (side <|> associativity) atEnd r
    if atEnd then inner else inner.map (Step.regradeLast precedence associativity)

end Rule

/-- The repetition bodies that have got a phrase number of their own, the oldest first; the
body at position `i` has the number `base + i`. -/
structure Naming where
  base : Nat
  bodies : List Rule

namespace Naming

/-- The phrase number of a repetition body: the one it has, or a new one. -/
def nameOf (n : Naming) (body : Rule) : Nat × Naming :=
  let i := n.bodies.idxOf body
  (n.base + i, if i < n.bodies.length then n else { n with bodies := n.bodies ++ [body] })

/-- Replaces every repetition of a rule by its phrase number. -/
def strip (n : Naming) : Rule → Rule × Naming
  | .seq a b =>
    let (a, n) := n.strip a
    let (b, n) := n.strip b
    (.seq a b, n)
  | .alt a b =>
    let (a, n) := n.strip a
    let (b, n) := n.strip b
    (.alt a b, n)
  | .many1 r =>
    let (r, n) := n.strip r
    let (v, n) := n.nameOf r
    (.phrase v, n)
  | .ranked p side r =>
    let (r, n) := n.strip r
    (.ranked p side r, n)
  | r => (r, n)

/-- Replaces the repetitions of several rules. -/
def stripAll (n : Naming) : List Rule → List Rule × Naming
  | [] => ([], n)
  | r :: rs =>
    let (r, n) := n.strip r
    let (rs, n) := n.stripAll rs
    (r :: rs, n)

end Naming

end DefTally.Grammar
