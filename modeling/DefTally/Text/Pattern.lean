/-!
# Patterns of characters

A `Pattern` describes a set of texts: single characters of a class, sequences, alternatives
and repetitions. `Pattern.after` is the pattern of what may follow a first character, and
`Pattern.longest` gives the length of the longest beginning of a text that a pattern
describes.
-/

namespace DefTally.Text

/-- A set of texts. -/
inductive Pattern where
  | never
  | blank
  | char (isIn : Char → Bool)
  | seq (first second : Pattern)
  | alt (first second : Pattern)
  | star (body : Pattern)

namespace Pattern

/-- One character. -/
def one (c : Char) : Pattern := char (· == c)

/-- One of the characters of a string. -/
def among (s : String) : Pattern := char fun c => s.toList.contains c

/-- The patterns one after the other. -/
def chain : List Pattern → Pattern
  | [] => blank
  | [p] => p
  | p :: ps => seq p (chain ps)

/-- Any one of the patterns. -/
def oneOf : List Pattern → Pattern
  | [] => never
  | [p] => p
  | p :: ps => alt p (oneOf ps)

/-- The characters of a string in their order. -/
def literal (s : String) : Pattern := chain (s.toList.map one)

/-- The pattern or nothing. -/
def optional (p : Pattern) : Pattern := alt p blank

/-- The pattern at least once. -/
def plus (p : Pattern) : Pattern := seq p (star p)

/-- The pattern a number of times. -/
def times (n : Nat) (p : Pattern) : Pattern := chain (List.replicate n p)

/-- The pattern describes the empty text. -/
def takesBlank : Pattern → Bool
  | never => false
  | blank => true
  | char _ => false
  | seq p q => p.takesBlank && q.takesBlank
  | alt p q => p.takesBlank || q.takesBlank
  | star _ => true

/-- A sequence, without the parts that add nothing. -/
def followedBy : Pattern → Pattern → Pattern
  | never, _ => never
  | blank, q => q
  | p, q => seq p q

/-- An alternative, without the parts that add nothing. -/
def orElse : Pattern → Pattern → Pattern
  | never, q => q
  | p, never => p
  | p, q => alt p q

/-- The texts that make up one of the pattern's when they follow the character. -/
def after (c : Char) : Pattern → Pattern
  | never => never
  | blank => never
  | char isIn => if isIn c then blank else never
  | seq p q =>
    if p.takesBlank then orElse (followedBy (p.after c) q) (q.after c)
    else followedBy (p.after c) q
  | alt p q => orElse (p.after c) (q.after c)
  | star p => followedBy (p.after c) (star p)

/-- The length of the longest beginning of the text that the pattern describes; `read`
characters came before, and `best` is the longest beginning among them. -/
def longestFrom (read : Nat) (best : Option Nat) : Pattern → List Char → Option Nat
  | p, [] => if p.takesBlank then some read else best
  | p, c :: cs =>
    let best := if p.takesBlank then some read else best
    match p.after c with
    | never => best
    | q => longestFrom (read + 1) best q cs

/-- The length of the longest beginning of the text that the pattern describes. -/
def longest (p : Pattern) (text : List Char) : Option Nat := longestFrom 0 none p text

end Pattern

end DefTally.Text
