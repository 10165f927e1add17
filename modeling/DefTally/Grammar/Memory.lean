import DefTally.Grammar.Parser

/-!
# Parsing in a memory

All threads of a parse share one memory, in which their tokens are read. A `TokenReader` finds in it
what the token before left there, perhaps in another thread or in another text, and leaves there
what it likes. `parseIn` steps the threads as `parse` does, one after the other, and leaves the
memory to the next text as it is.
-/

namespace DefTally.Grammar

/-- Reads the next token among those that can stand at a place, in a memory. -/
abbrev TokenReader (ρ μ : Type) := (Nat → Bool) → ρ → StateM μ (Option (Nat × ρ))

variable {σ ρ μ : Type}

/-- What a thread leads to by the token that was read for it. -/
def Thread.take (a : Automaton σ) (r : Reader ρ) (chain : Nat) (thread : Thread σ ρ) :
    Option (Nat × ρ) → List (Progress σ ρ)
  | none => []
  | some (token, after) =>
    if r.ignored token then [.onward { thread with place := after }]
    else resolve a r after (chain * (thread.stack.length + 1)) token thread.stack

theorem Thread.step_eq_take (a : Automaton σ) (r : Reader ρ) (chain : Nat) (thread : Thread σ ρ) :
    thread.step a r chain = thread.take a r chain
      (r.next (fun t => (a.action (a.top thread.stack) t).possible) thread.place) := by
  rw [Thread.step]
  split <;> simp [Thread.take, *]

section

variable (a : Automaton σ) (r : Reader ρ) (read : TokenReader ρ μ) (chain : Nat)

/-- Reads one token for a thread. -/
def Thread.stepIn (thread : Thread σ ρ) : StateM μ (List (Progress σ ρ)) := do
  return thread.take a r chain
    (← read (fun t => (a.action (a.top thread.stack) t).possible) thread.place)

/-- Reads one token for each thread, one thread after the other. -/
def stepAllIn : List (Thread σ ρ) → StateM μ (List (Progress σ ρ))
  | [] => return []
  | thread :: rest => do
    let first ← thread.stepIn a r read chain
    return first ++ (← stepAllIn rest)

/-- Steps all threads, at most `fuel` times, until one has read the whole text. -/
def runIn [BEq σ] : Nat → List (Thread σ ρ) → StateM μ (Option Tree)
  | 0, _ => return none
  | _ + 1, [] => return none
  | fuel + 1, threads => do
    let results ← stepAllIn a r read chain threads
    match firstWhole results with
    | some tree => return some tree
    | none => runIn fuel (distinct r (onward results))

/-- The tree of a whole text that is read from the given place on, in at most `rounds` tokens. -/
def parseIn [BEq σ] (rounds : Nat) (place : ρ) : StateM μ (Option Tree) :=
  runIn a r read chain rounds [⟨[], place⟩]

end

end DefTally.Grammar
