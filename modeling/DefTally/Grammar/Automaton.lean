import DefTally.Grammar.Action
import Std.Data.HashMap

/-!
# The automaton of a grammar

A parser needs three things of its states: the one to start in, what to do at a token, and
where a symbol leads. `Facts.automaton` answers from the kernels themselves. `Table` is a
list of states explored beforehand, and `Table.automaton` answers from it, falling back to
the kernel for a state that is not listed, so that both give the same answers.
-/

namespace DefTally.Grammar

/-- What a parser asks of its states. -/
structure Automaton (σ : Type) where
  /-- The state before anything is read. -/
  start : σ
  /-- What to do at a token. -/
  action : σ → Nat → Action
  /-- The state that a symbol leads to. -/
  next : σ → Symbol → Option σ
  /-- The production whose reduction ends the text. -/
  whole : Production

namespace Facts

variable (f : Facts)

/-- The production of a whole text, whose head is no phrase of the grammar. -/
def whole : Production := ⟨f.grammar.productions.size, [⟨.phrase f.grammar.goal, 0, none⟩]⟩

/-- The kernel of the first state: the whole text is still to come, and then its end. -/
def start : Kernel := [⟨f.whole, 0, .single f.grammar.endOfText⟩]

/-- The kernel that a symbol leads to. -/
def next (kernel : Kernel) (x : Symbol) : Option Kernel :=
  match advance (f.items kernel) x with
  | [] => none
  | k => some k

/-- The automaton whose states are kernels. -/
def automaton : Automaton Kernel where
  start := f.start
  action kernel t := f.action (f.items kernel) t
  next kernel x := f.next kernel x
  whole := f.whole

end Facts

/-- How many symbols a grammar has. -/
def symbolCount (g : Grammar) : Nat := g.tokens + g.productions.size

/-- The position of a symbol among the symbols of a grammar: the tokens come first. -/
def position (g : Grammar) : Symbol → Nat
  | .token t => t
  | .phrase p => g.tokens + p

/-- The kernels that the symbols of a grammar lead to, by position. -/
def successorKernels (g : Grammar) (items : List Item) : Array Kernel :=
  items.foldr (fun i kernels => match i.next? with
    | some x => kernels.modify (g.position x) ({ i with dot := i.dot + 1 } :: ·)
    | none => kernels) (Array.replicate g.symbolCount [])

/-- A state of the table. -/
structure Row where
  /-- The items of the state. -/
  items : List Item
  /-- What to do at each token. -/
  actions : Thunk (Array Action)
  /-- The row that each symbol leads to, in the order of `Grammar.position`. -/
  successors : Array (Option Nat)

/-- States in the order in which they were found; the first ones are worked out. -/
structure Table where
  facts : Facts
  kernels : Array Kernel
  rows : Array Row
  index : Std.HashMap Kernel Nat

namespace Table

/-- The table that knows the first state only. -/
def empty (f : Facts) : Table :=
  { facts := f, kernels := #[f.start], rows := #[], index := {(f.start, 0)} }

/-- The number of a kernel, new or known. -/
def number (t : Table) (k : Kernel) : Nat × Table :=
  match t.index[k]? with
  | some i => (i, t)
  | none =>
    let i := t.kernels.size
    (i, { t with kernels := t.kernels.push k, index := t.index.insert k i })

/-- Numbers the kernels that are not empty. -/
def numberAll (t : Table) : List Kernel → Array (Option Nat) → Array (Option Nat) × Table
  | [], found => (found, t)
  | [] :: ks, found => t.numberAll ks (found.push none)
  | k :: ks, found =>
    let (i, t) := t.number k
    t.numberAll ks (found.push (some i))

/-- Works out the state of a kernel. -/
def extend (t : Table) (kernel : Kernel) : Table :=
  let f := t.facts
  let items := f.items kernel
  let actions := Thunk.mk fun _ =>
    let possible := possibleTokens items
    ((List.range f.grammar.tokens).map fun token =>
      if possible.has token then f.action items token else .refuse).toArray
  let (successors, t) := t.numberAll (successorKernels f.grammar items).toList #[]
  { t with rows := t.rows.push { items, actions, successors } }

/-- Works out at most `fuel` more states. -/
def explore : Nat → Table → Table
  | 0, t => t
  | fuel + 1, t =>
    match t.kernels[t.rows.size]? with
    | none => t
    | some k => explore fuel (t.extend k)

/-- The table of a grammar with at most `limit` states worked out. -/
def build (f : Facts) (limit : Nat) : Table := explore limit (empty f)

/-- A state of a table's automaton: a number in the table, or a kernel that it lacks. -/
inductive State where
  | listed (i : Nat)
  | unlisted (kernel : Kernel)
  deriving DecidableEq

/-- The kernel of a state. -/
def kernelOf (t : Table) : State → Kernel
  | .listed i => t.kernels.getD i []
  | .unlisted k => k

/-- The row of a state, if it is listed and worked out. -/
def rowOf? (t : Table) : State → Option Row
  | .listed i => t.rows[i]?
  | .unlisted _ => none

/-- The automaton that looks its answers up. -/
def automaton (t : Table) : Automaton State where
  start := .listed 0
  action s token := match t.rowOf? s with
    | some row => row.actions.get.getD token .refuse
    | none => t.facts.automaton.action (t.kernelOf s) token
  next s x := match t.rowOf? s with
    | some row => (row.successors.getD (t.facts.grammar.position x) none).map .listed
    | none => (t.facts.automaton.next (t.kernelOf s) x).map .unlisted
  whole := t.facts.whole

end Table

end DefTally.Grammar
