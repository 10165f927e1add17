import DefTally.Grammar.Rule

/-!
# Derivation trees

A `Tree` shows how a text is derived: a leaf is a token, and a node is a production with one
tree for each symbol of its body. `Tree.leaves` is the text that the tree derives.
-/

namespace DefTally.Grammar

/-- A derivation tree. -/
inductive Tree where
  | leaf (token : Nat)
  | node (production : Production) (children : List Tree)

namespace Tree

/-- The symbol that a tree derives from. -/
def symbol : Tree → Symbol
  | leaf t => .token t
  | node p _ => .phrase p.head

mutual

/-- The tokens of a tree, from left to right. -/
def leaves : Tree → List Nat
  | leaf t => [t]
  | node _ children => leavesOf children

/-- The tokens of several trees, from left to right. -/
def leavesOf : List Tree → List Nat
  | [] => []
  | t :: ts => t.leaves ++ leavesOf ts

end

mutual

/-- The trees that are left when the nodes of some phrases give way to their children. -/
def within (transparent : Nat → Bool) : Tree → List Tree
  | leaf t => [leaf t]
  | node p children =>
    if transparent p.head then withinAll transparent children else [node p children]

/-- The trees that are left of several trees. -/
def withinAll (transparent : Nat → Bool) : List Tree → List Tree
  | [] => []
  | t :: ts => t.within transparent ++ withinAll transparent ts

end

end Tree

end DefTally.Grammar
