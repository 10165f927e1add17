import DefTally.Grammar.Automaton
import DefTally.Grammar.Tree

/-!
# Parsing along every possibility

A `Thread` is one way to read the text so far: a stack of states with the tree that led to
each, and the place up to which the text is read. `Thread.step` reads one token, makes the
reductions that it calls for and shifts it; where the automaton leaves a choice, the thread
splits. `parse` steps all threads together, drops those that have come to the same point, and
ends with the first tree of a whole text.

A reduction takes exactly the trees of the production's symbols off the stack, so every tree
is a derivation, whatever the automaton answers.
-/

namespace DefTally.Grammar

/-- How the text is cut into tokens. A place is a point in the text, with all that the cut
of the rest depends on. -/
structure Reader (ρ : Type) where
  /-- The next token among those that can stand at the place, and the place after it. -/
  next : (Nat → Bool) → ρ → Option (Nat × ρ)
  /-- A token that may stand anywhere and is no part of the grammar. -/
  ignored : Nat → Bool
  /-- The token that a word is read as where the word itself cannot stand. -/
  plain : Nat → Option Nat
  /-- Two places from which the text goes on alike. -/
  same : ρ → ρ → Bool

/-- A state on the stack, with the tree that led to it. -/
structure Frame (σ : Type) where
  state : σ
  tree : Tree

/-- One way to read the text so far. The last frame is the first of the stack. -/
structure Thread (σ ρ : Type) where
  stack : List (Frame σ)
  place : ρ

/-- What a step of a thread leads to. -/
inductive Progress (σ ρ : Type) where
  | onward (thread : Thread σ ρ)
  | whole (tree : Tree)

variable {σ ρ : Type}

/-- The state on top of a stack. -/
def Automaton.top (a : Automaton σ) (stack : List (Frame σ)) : σ :=
  match stack with
  | [] => a.start
  | frame :: _ => frame.state

/-- Takes the trees of the given symbols off a stack, the last symbol first. The trees are
put before `taken`, so that they end up in the order of the text. -/
def unstack (taken : List Tree) : List Symbol → List (Frame σ) →
    Option (List Tree × List (Frame σ))
  | [], stack => some (taken, stack)
  | _ :: _, [] => none
  | x :: xs, frame :: stack =>
    if frame.tree.symbol = x then unstack (frame.tree :: taken) xs stack else none

/-- Pushes a tree: the automaton goes on by its symbol. -/
def Automaton.push (a : Automaton σ) (stack : List (Frame σ)) (tree : Tree) :
    Option (List (Frame σ)) :=
  (a.next (a.top stack) tree.symbol).map fun state => ⟨state, tree⟩ :: stack

/-- Puts the trees of a production's symbols together. -/
def Automaton.reduce (a : Automaton σ) (stack : List (Frame σ)) (p : Production) :
    Option (List (Frame σ)) :=
  match unstack [] (p.body.reverse.map Step.symbol) stack with
  | none => none
  | some (trees, stack) => a.push stack (.node p trees)

/-- The tree of a whole text: it is alone on the stack. -/
def wholeTree : List (Frame σ) → Option Tree
  | [frame] => some frame.tree
  | _ => none

/-- The token to go by: the word that was read or, where that cannot stand, its plain
meaning. -/
def Reader.meaning (r : Reader ρ) (a : Automaton σ) (state : σ) (token : Nat) : Nat :=
  if (a.action state token).possible then token else (r.plain token).getD token

/-- Makes the reductions that a token calls for and shifts it; `after` is the place after
the token. -/
def resolve (a : Automaton σ) (r : Reader ρ) (after : ρ) :
    Nat → Nat → List (Frame σ) → List (Progress σ ρ)
  | 0, _, _ => []
  | fuel + 1, token, stack =>
    let token := r.meaning a (a.top stack) token
    let action := a.action (a.top stack) token
    let reduced := action.reduce.flatMap fun p =>
      if p = a.whole then
        match wholeTree stack with
        | some tree => [.whole tree]
        | none => []
      else match a.reduce stack p with
        | some stack => resolve a r after fuel token stack
        | none => []
    let shifted := if action.shift then
        match a.push stack (.leaf token) with
        | some stack => [.onward ⟨stack, after⟩]
        | none => []
      else []
    reduced ++ shifted

/-- Reads one token. `chain` bounds the reductions in a row that leave the height of the
stack as it is. -/
def Thread.step (a : Automaton σ) (r : Reader ρ) (chain : Nat) (thread : Thread σ ρ) :
    List (Progress σ ρ) :=
  match r.next (fun t => (a.action (a.top thread.stack) t).possible) thread.place with
  | none => []
  | some (token, after) =>
    if r.ignored token then [.onward { thread with place := after }]
    else resolve a r after (chain * (thread.stack.length + 1)) token thread.stack

/-- Two stacks with the same states. -/
def sameStates [BEq σ] : List (Frame σ) → List (Frame σ) → Bool
  | [], [] => true
  | f :: fs, g :: gs => f.state == g.state && sameStates fs gs
  | _, _ => false

/-- Two threads that go on alike. -/
def Thread.same [BEq σ] (r : Reader ρ) (t u : Thread σ ρ) : Bool :=
  r.same t.place u.place && sameStates t.stack u.stack

/-- Drops the threads that go on like an earlier one. -/
def distinct [BEq σ] (r : Reader ρ) (threads : List (Thread σ ρ)) : List (Thread σ ρ) :=
  threads.foldl (fun kept t => if kept.any (t.same r ·) then kept else kept ++ [t]) []

/-- The threads among the results of steps. -/
def onward : List (Progress σ ρ) → List (Thread σ ρ)
  | [] => []
  | .onward t :: rest => t :: onward rest
  | .whole _ :: rest => onward rest

/-- The first tree of a whole text among the results of steps. -/
def firstWhole : List (Progress σ ρ) → Option Tree
  | [] => none
  | .onward _ :: rest => firstWhole rest
  | .whole tree :: _ => some tree

/-- Steps all threads, at most `fuel` times, until one has read the whole text. -/
def run [BEq σ] (a : Automaton σ) (r : Reader ρ) (chain : Nat) :
    Nat → List (Thread σ ρ) → Option Tree
  | 0, _ => none
  | _ + 1, [] => none
  | fuel + 1, threads =>
    let results := threads.flatMap (Thread.step a r chain)
    match firstWhole results with
    | some tree => some tree
    | none => run a r chain fuel (distinct r (onward results))

/-- The tree of a whole text that is read from the given place on, in at most `rounds`
tokens. -/
def parse [BEq σ] (a : Automaton σ) (r : Reader ρ) (chain rounds : Nat) (place : ρ) :
    Option Tree :=
  run a r chain rounds [⟨[], place⟩]

end DefTally.Grammar
