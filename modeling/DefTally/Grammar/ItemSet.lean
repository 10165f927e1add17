import DefTally.Grammar.Basic

/-!
# Item sets

An `Item` is a production read up to a dot, with the tokens that may follow the phrase once
it is finished. A parser state is known by its kernel, the items with something read;
`Facts.items` adds the items of every phrase that may begin next, and `advance` moves the dot
over one symbol. Followers are never merged between kernels, so every state knows exactly
which tokens can follow.
-/

namespace DefTally.Grammar

/-- A production read up to a dot. -/
structure Item where
  production : Production
  dot : Nat
  /-- The tokens that may follow the finished phrase. -/
  followers : TokenSet
  deriving DecidableEq

namespace Item

/-- The symbol after the dot, if the production is not read to its end. -/
def next? (i : Item) : Option Symbol := (i.production.body[i.dot]?).map Step.symbol

/-- The step before the dot, if something is read. -/
def last? (i : Item) : Option Step := if i.dot = 0 then none else i.production.body[i.dot - 1]?

/-- The precedence of what is read. -/
def precedence (i : Item) : Int := (i.last?.map Step.precedence).getD 0

/-- The associativity of what is read. -/
def associativity (i : Item) : Option Associativity := i.last?.bind Step.associativity

/-- The item after one more symbol, if that symbol comes next. -/
def past (i : Item) (x : Symbol) : Option Item :=
  if i.next? = some x then some { i with dot := i.dot + 1 } else none

instance : Hashable Item where
  hash i := mixHash (hash i.production.head) (mixHash (hash i.dot)
    (mixHash (hash i.production.body.length) (hash i.followers)))

end Item

/-- The items that tell a parser state: those with something read. -/
abbrev Kernel := List Item

/-- A grammar with the facts about it that every state needs. -/
structure Facts where
  grammar : Grammar
  starters : TokenTable
  spread : Array (List TokenSet)

namespace Facts

/-- The facts of a grammar. -/
def ofGrammar (g : Grammar) : Facts :=
  let starters := g.starters
  { grammar := g, starters, spread := g.spread starters }

variable (f : Facts)

/-- The tokens that can begin a symbol. -/
def beginning (x : Symbol) : TokenSet := f.grammar.beginning f.starters x

/-- The tokens that may follow the symbol after the dot. -/
def followersOfNext (i : Item) : TokenSet :=
  match i.production.body[i.dot + 1]? with
  | none => i.followers
  | some step => f.beginning step.symbol

/-- Adds to the followers of a phrase those it gets from a phrase that begins where it
begins and is followed by `context`. -/
def blend (context have_ new : TokenSet) : TokenSet :=
  if new = 0 then have_
  else if new.has f.grammar.tokens then
    have_.union ((new ^^^ .single f.grammar.tokens).union context)
  else have_.union new

/-- The followers of each phrase that may begin at the dot of a kernel item; those of a
phrase that may not begin there are empty. -/
def followers (kernel : Kernel) : List TokenSet :=
  kernel.foldl (fun sets i => match i.next? with
    | some (.phrase p) =>
      List.zipWith (f.blend (f.followersOfNext i)) sets (f.spread.getD p [])
    | _ => sets) (List.replicate f.grammar.productions.size 0)

/-- All items of the state with the given kernel. -/
def items (kernel : Kernel) : List Item :=
  kernel ++ (f.grammar.productions.toList.zip (f.followers kernel)).flatMap
    fun (productions, s) => if s = 0 then [] else productions.map (⟨·, 0, s⟩)

end Facts

/-- The kernel of the state after one more symbol; empty if the symbol cannot come next. -/
def advance (items : List Item) (x : Symbol) : Kernel := items.filterMap (·.past x)

end DefTally.Grammar
