import DefTally.Grammar.Memory

/-!
# What a memory does not change

A token reader is steady if what it reads does not depend on what its memory holds before. Then no
token that was read before, in whatever thread or text, has a part in what a parse answers:
`steady_parseIn` says that it answers as a parse without a memory does.
-/

namespace DefTally.Grammar

variable {σ ρ μ α β : Type}

/-- Whatever the memory holds, the answer is the same. -/
def Steady (x : StateM μ α) (a : α) : Prop := ∀ m, (x m).1 = a

theorem Steady.pure (a : α) : Steady (μ := μ) (return a) a := fun _ => rfl

theorem Steady.bind {x : StateM μ α} {a : α} {f : α → StateM μ β} {b : β} (first : Steady x a)
    (second : Steady (f a) b) : Steady (x >>= f) b := by
  intro m
  have answer := first m
  show (f (x m).1 (x m).2).1 = b
  rw [answer]
  exact second _

/-- What follows on something that is put into the memory has just that to go by. -/
theorem Steady.afterSet {x : StateM μ α} {m : μ} {a : α} (answer : (x m).1 = a) :
    Steady (set m >>= fun _ => x) a := fun _ => answer

/-- A token reader reads as another one does, whatever its memory holds. -/
def ReadsAs (read : TokenReader ρ μ) (r : Reader ρ) : Prop :=
  ∀ expects place, Steady (read expects place) (r.next expects place)

section

variable {a : Automaton σ} {r : Reader ρ} {read : TokenReader ρ μ} {chain : Nat}

theorem steady_stepIn (reads : ReadsAs read r) (thread : Thread σ ρ) :
    Steady (thread.stepIn a r read chain) (thread.step a r chain) := by
  rw [Thread.step_eq_take]
  exact (reads _ _).bind (.pure _)

theorem steady_stepAllIn (reads : ReadsAs read r) (threads : List (Thread σ ρ)) :
    Steady (stepAllIn a r read chain threads) (threads.flatMap (Thread.step a r chain)) := by
  induction threads with
  | nil => exact .pure []
  | cons thread rest ih =>
    rw [List.flatMap_cons]
    exact (steady_stepIn reads thread).bind (ih.bind (.pure _))

theorem steady_runIn [BEq σ] (reads : ReadsAs read r) (fuel : Nat) :
    ∀ threads : List (Thread σ ρ),
      Steady (runIn a r read chain fuel threads) (run a r chain fuel threads) := by
  induction fuel with
  | zero => exact fun threads => .pure none
  | succ fuel ih =>
    intro threads
    cases threads with
    | nil => exact .pure none
    | cons thread rest =>
      refine (steady_stepAllIn reads (thread :: rest)).bind ?_
      rw [run]
      · cases firstWhole ((thread :: rest).flatMap (Thread.step a r chain)) with
        | some tree => exact .pure (some tree)
        | none => exact ih _
      · exact fun no => by cases no

/-- A parse in a memory answers as a parse without one, whatever the memory holds before. -/
theorem steady_parseIn [BEq σ] (reads : ReadsAs read r) (rounds : Nat) (place : ρ) :
    Steady (parseIn a r read chain rounds place) (parse a r chain rounds place) :=
  steady_runIn reads rounds _

end

end DefTally.Grammar
