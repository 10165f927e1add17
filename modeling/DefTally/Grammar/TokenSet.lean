/-!
# Sets of tokens

A set of tokens is a natural number whose bit `t` tells whether token `t` is in the set:
union is bitwise, and the empty set is zero. A `TokenTable` is one number that holds a set for
each phrase, side by side.
-/

namespace DefTally.Grammar

/-- A set of tokens, one bit for each. -/
abbrev TokenSet := Nat

namespace TokenSet

/-- The set of one token. -/
def single (t : Nat) : TokenSet := 1 <<< t

/-- Both sets together. -/
def union (s r : TokenSet) : TokenSet := s ||| r

/-- Membership. -/
def has (s : TokenSet) (t : Nat) : Bool := s.testBit t

theorem has_single {t u : Nat} : (single t).has u = decide (t = u) := by
  simp [single, has, Nat.one_shiftLeft, Nat.testBit_two_pow]

theorem has_union {s r : TokenSet} {t : Nat} :
    (s.union r).has t = (s.has t || r.has t) := by
  simp [union, has]

end TokenSet

/-- A set of tokens at each place, as many bits wide as every table of its kind. -/
abbrev TokenTable := Nat

namespace TokenTable

/-- The table with a set at one place and nothing elsewhere. -/
def single (width place : Nat) (s : TokenSet) : TokenTable := s <<< (width * place)

/-- The set at a place. -/
def row (width : Nat) (table : TokenTable) (place : Nat) : TokenSet :=
  (table >>> (width * place)) % (1 <<< width)

/-- Both tables together, place by place. -/
def union (a b : TokenTable) : TokenTable := a ||| b

/-- Puts a set at each place where the table has token 0 and nothing else. -/
def fill (table : TokenTable) (s : TokenSet) : TokenTable := table * s

end TokenTable

end DefTally.Grammar
