import DefTally.Grammar.ItemSet

/-!
# What to do at a token

`Facts.action` says what a state does when it meets a token: which finished productions it
reduces and whether it shifts the token. Where both are possible, precedence decides first,
then associativity; between reductions the higher precedence wins. What neither settles is
kept, and the parser follows every possibility.
-/

namespace DefTally.Grammar

/-- What a state does at a token. -/
structure Action where
  reduce : List Production
  shift : Bool
  deriving DecidableEq

namespace Action

/-- Nothing is possible: the token cannot stand here. -/
def refuse : Action := ⟨[], false⟩

/-- The token can stand here. -/
def possible (a : Action) : Bool := a.shift || !a.reduce.isEmpty

end Action

/-- The items that are read to their end and may be followed by the token. -/
def finished (items : List Item) (t : Nat) : List Item :=
  items.filter fun i => i.next?.isNone && i.followers.has t

/-- The tokens at which something may be possible: those that come next in an item, and
those that may follow a finished one. -/
def possibleTokens (items : List Item) : TokenSet :=
  items.foldl (fun s i => match i.next? with
    | some (.token t) => s.union (.single t)
    | some (.phrase _) => s
    | none => s.union i.followers) 0

/-- The items of highest precedence. -/
def strongest (items : List Item) : List Item :=
  items.foldl (fun best i => match best with
    | [] => [i]
    | b :: _ =>
      if b.precedence < i.precedence then [i]
      else if i.precedence < b.precedence then best
      else best ++ [i]) []

namespace Facts

variable (f : Facts)

/-- The items with something read whose next symbol may begin with the token. -/
def continuing (items : List Item) (t : Nat) : List Item :=
  items.filter fun i => i.dot != 0 && match i.next? with
    | some x => (f.beginning x).has t
    | none => false

/-- All the given items belong to one and the same repetition. -/
def sameRepetition (items : List Item) : Bool :=
  match (items.map (·.production.head)).filter (· < f.grammar.productions.size) with
  | [] => false
  | h :: hs => f.grammar.repetitions ≤ h && hs.all (· == h)

/-- Settles whether to shift a token or to reduce the `done` items, which have one
precedence. A repetition is always reduced, so that its runs are grouped to the left. -/
def settleShift (items done : List Item) (t : Nat) : Action :=
  let reduce := done.map (·.production)
  let rank := (done.head?.map Item.precedence).getD 0
  let open_ := f.continuing items t
  if f.sameRepetition (open_ ++ finished items t) then ⟨reduce, false⟩
  else
    let higher := open_.any fun i => rank < i.precedence
    let lower := open_.any fun i => i.precedence < rank
    if higher && !lower then ⟨[], true⟩
    else if lower && !higher then ⟨reduce, false⟩
    else if higher && lower then ⟨reduce, true⟩
    else if done.all (·.associativity = some .left) then ⟨reduce, false⟩
    else if done.all (·.associativity = some .right) then ⟨[], true⟩
    else ⟨reduce, true⟩

/-- What a state with the given items does at a token. -/
def action (items : List Item) (t : Nat) : Action :=
  let done := strongest (finished items t)
  let shift := items.any fun i => i.next? = some (.token t)
  if shift && !done.isEmpty then f.settleShift items done t
  else ⟨done.map (·.production), shift⟩

end Facts

end DefTally.Grammar
