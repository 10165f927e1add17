import DefTally.Proofs.Grammar.Closure
import DefTally.Proofs.Grammar.Derivation

/-!
# Parsing without a choice

Where a parser never has a choice, one thread reads the text, and what it does can be worked out
from the kernels and symbols of its stack alone: a `View`. `Facts.shiftAt` works out the reductions
that a token calls for and its shift, and `resolve_shiftAt` says that the parser does just that.
The trees on the stack are known by their tokens, `word`, to which a step adds the token it reads.
-/

namespace DefTally.Grammar

/-- The states of a stack, told by their kernels, each with the symbol that led to it. -/
abbrev View := List (Kernel × Symbol)

namespace Facts

variable (f : Facts)

/-- The kernel of the state on top. -/
def topOf : View → Kernel
  | [] => f.start
  | (k, _) :: _ => k

/-- What to do at a token. -/
def actionAt (v : View) (token : Nat) : Action := f.action (f.itemsAt (f.topOf v) token) token

/-- Pushes a symbol. -/
def grow (v : View) (x : Symbol) : Option View :=
  match advance (f.itemsAt (f.topOf v) (f.grammar.position x)) x with
  | [] => none
  | k => some ((k, x) :: v)

/-- Puts the symbols of a production together. -/
def contract (v : View) (p : Production) : Option View :=
  if p.head < f.grammar.productions.size ∧
      (v.take p.body.length).map (·.2) = p.body.reverse.map Step.symbol then
    f.grow (v.drop p.body.length) (.phrase p.head)
  else none

/-- Makes the reductions that a token calls for, while there is no choice, and shifts it. -/
def shiftAt (token : Nat) : Nat → View → Option View
  | 0, _ => none
  | n + 1, v => match f.actionAt v token with
    | ⟨[], true⟩ => f.grow v (.token token)
    | ⟨[p], false⟩ => (f.contract v p).bind (shiftAt token n)
    | _ => none

/-- Makes at most so many reductions, each of which is all that any of the tokens calls for. -/
def reduceAll (tokens : List Nat) : Nat → View → View
  | 0, v => v
  | n + 1, v => match (tokens.map (f.actionAt v)).eraseDups with
    | [⟨[p], false⟩] => match f.contract v p with
      | some v' => reduceAll tokens n v'
      | none => v
    | _ => v

end Facts

/-- An automaton that a grammar's facts tell all about. -/
structure Traced {σ : Type} (f : Facts) (a : Automaton σ) (view : σ → Kernel) : Prop where
  mirrors : Mirrors f.grammar a f.automaton view
  closed : f.grammar.Closed
  spreads : f.Spread

variable {σ ρ : Type} {f : Facts} {a : Automaton σ} {r : Reader ρ} {view : σ → Kernel}
  {stack stack' : List (Frame σ)} {v v' : View} {p : Production} {token : Nat} {tree : Tree} {x : Symbol}

/-- The stack is seen as kernels and symbols, and the kernels are of the grammar. -/
structure Shows (f : Facts) (view : σ → Kernel) (stack : List (Frame σ)) (v : View) : Prop where
  seen : stack.map (fun frame => (view frame.state, frame.tree.symbol)) = v
  known : ∀ entry ∈ v, f.Known entry.1

/-- The tokens of the trees on a stack, in the order of the text. -/
def word (stack : List (Frame σ)) : List Nat := Tree.leavesOf (stack.reverse.map (·.tree))

theorem leavesOf_append (s t : List Tree) :
    Tree.leavesOf (s ++ t) = Tree.leavesOf s ++ Tree.leavesOf t := by
  induction s with
  | nil => simp [Tree.leavesOf]
  | cons tree rest ih => simp [Tree.leavesOf, ih]

theorem word_cons (frame : Frame σ) (rest : List (Frame σ)) :
    word (frame :: rest) = word rest ++ frame.tree.leaves := by
  simp [word, leavesOf_append, Tree.leavesOf]

theorem word_append (above below : List (Frame σ)) :
    word (above ++ below) = word below ++ Tree.leavesOf (above.map (·.tree)).reverse := by
  simp [word, leavesOf_append, List.map_reverse]

/-! ## What the view of a stack tells -/

theorem Shows.nil : Shows f view ([] : List (Frame σ)) [] :=
  ⟨rfl, fun _ inside => absurd inside List.not_mem_nil⟩

theorem Shows.topKnown (shows : Shows f view stack v) : f.Known (f.topOf v) := by
  cases v with
  | nil => exact .start f
  | cons entry rest => exact shows.known entry List.mem_cons_self

theorem Shows.top (traced : Traced f a view) (shows : Shows f view stack v) :
    view (a.top stack) = f.topOf v := by
  cases stack with
  | nil =>
    cases shows.seen
    exact traced.mirrors.start
  | cons frame rest =>
    cases shows.seen
    rfl

/-- What the view of a stack says of an action is what the parser does. -/
theorem Shows.action (traced : Traced f a view) (shows : Shows f view stack v)
    (fits : token < f.grammar.tokens) : a.action (a.top stack) token = f.actionAt v token := by
  rw [traced.mirrors.action _ _ fits, shows.top traced]
  exact action_itemsAt traced.closed traced.spreads shows.topKnown fits

theorem push_of_grow (traced : Traced f a view) (shows : Shows f view stack v) (tree : Tree)
    (symbol : f.grammar.IsSymbol tree.symbol) (grown : f.grow v tree.symbol = some v') :
    ∃ stack', a.push stack tree = some stack' ∧ Shows f view stack' v' ∧
      word stack' = word stack ++ tree.leaves := by
  have known := shows.topKnown
  obtain ⟨k, leads, rfl⟩ : ∃ k, f.next (f.topOf v) tree.symbol = some k ∧
      (k, tree.symbol) :: v = v' := by
    rw [Facts.grow, ← advance_itemsAt traced.closed traced.spreads known symbol] at grown
    rw [Facts.next]
    cases leads : advance (f.items (f.topOf v)) tree.symbol with
    | nil => simp [leads] at grown
    | cons i rest =>
      rw [leads] at grown
      exact ⟨i :: rest, rfl, Option.some.inj grown⟩
  have same := traced.mirrors.next (a.top stack) _ symbol
  rw [shows.top traced] at same
  obtain ⟨s, next, rfl⟩ := Option.map_eq_some_iff.1 (same.trans leads)
  refine ⟨⟨s, tree⟩ :: stack, ?_, ⟨?_, ?_⟩, word_cons _ _⟩
  · rw [Automaton.push, next]
    rfl
  · rw [List.map_cons, shows.seen]
  · rintro entry (_ | ⟨_, inside⟩)
    · rw [← (next_eq_some_iff.1 leads).1]
      exact known.items.advance _
    · exact shows.known entry inside

theorem unstack_append (above below : List (Frame σ)) (taken : List Tree) :
    unstack taken (above.map (·.tree.symbol)) (above ++ below) =
      some ((above.map (·.tree)).reverse ++ taken, below) := by
  induction above generalizing taken with
  | nil => rfl
  | cons frame rest ih =>
    rw [List.map_cons, List.cons_append, unstack, if_pos rfl, ih]
    simp

theorem reduce_of_contract (traced : Traced f a view) (shows : Shows f view stack v)
    (contracted : f.contract v p = some v') :
    p ≠ a.whole ∧ ∃ stack', a.reduce stack p = some stack' ∧ Shows f view stack' v' ∧
      word stack' = word stack := by
  rw [Facts.contract] at contracted
  split at contracted
  · next possible =>
    obtain ⟨known, symbols⟩ := possible
    have proper : p ≠ a.whole := by
      rintro rfl
      rw [traced.mirrors.whole] at known
      exact absurd known (Nat.lt_irrefl _)
    refine ⟨proper, ?_⟩
    -- the frames of the production's symbols, and those below
    have parted := List.take_append_drop p.body.length stack
    generalize hAbove : stack.take p.body.length = above at parted
    generalize hBelow : stack.drop p.body.length = below at parted
    have showsAbove : above.map (·.tree.symbol) = p.body.reverse.map Step.symbol := by
      rw [← symbols, ← shows.seen, ← hAbove]
      simp [Function.comp_def]
    have showsBelow : Shows f view below (v.drop p.body.length) := by
      refine ⟨?_, fun entry inside => shows.known entry (List.mem_of_mem_drop inside)⟩
      rw [← hBelow, ← shows.seen, List.map_drop]
    have taken := unstack_append above below []
    rw [showsAbove, parted, List.append_nil] at taken
    obtain ⟨stack', pushed, shows', word'⟩ := push_of_grow traced showsBelow
      (.node p (above.map (·.tree)).reverse) known contracted
    refine ⟨stack', ?_, shows', ?_⟩
    · rw [Automaton.reduce, taken]
      exact pushed
    · rw [word', ← parted, word_append]
      simp [Tree.leaves]
  · cases contracted

/-! ## Reductions and shifts -/

theorem meaning_of_possible {s : σ} (h : (a.action s token).possible = true) :
    r.meaning a s token = token := by
  rw [Reader.meaning, if_pos h]

theorem resolve_reduce (traced : Traced f a view) (shows : Shows f view stack v)
    (fits : token < f.grammar.tokens) (sole : f.actionAt v token = ⟨[p], false⟩)
    (contracted : f.contract v p = some v') :
    ∃ stack', Shows f view stack' v' ∧ word stack' = word stack ∧ ∀ after fuel,
      resolve a r after (fuel + 1) token stack = resolve a r after fuel token stack' := by
  obtain ⟨proper, stack', reduced, shows', word'⟩ := reduce_of_contract traced shows contracted
  refine ⟨stack', shows', word', ?_⟩
  intro after fuel
  have action := (shows.action traced fits).trans sole
  have means : r.meaning a (a.top stack) token = token := meaning_of_possible (by rw [action]; rfl)
  simp [resolve, means, action, proper, reduced]

theorem resolve_shift (traced : Traced f a view) (shows : Shows f view stack v)
    (fits : token < f.grammar.tokens) (sole : f.actionAt v token = ⟨[], true⟩)
    (grown : f.grow v (.token token) = some v') :
    ∃ stack', Shows f view stack' v' ∧ word stack' = word stack ++ [token] ∧ ∀ after fuel,
      resolve a r after (fuel + 1) token stack = [.onward ⟨stack', after⟩] := by
  obtain ⟨stack', pushed, shows', word'⟩ := push_of_grow traced shows (.leaf token) fits grown
  refine ⟨stack', shows', by simpa [Tree.leaves] using word', ?_⟩
  intro after fuel
  have action := (shows.action traced fits).trans sole
  have means : r.meaning a (a.top stack) token = token := meaning_of_possible (by rw [action]; rfl)
  simp [resolve, means, action, pushed]

/-- The parser makes the reductions that were worked out and shifts the token. -/
theorem resolve_shiftAt (traced : Traced f a view) (fits : token < f.grammar.tokens) (n : Nat) :
    ∀ {stack v}, Shows f view stack v → f.shiftAt token n v = some v' →
      ∃ stack', Shows f view stack' v' ∧ word stack' = word stack ++ [token] ∧ ∀ after fuel,
        n ≤ fuel → resolve a r after fuel token stack = [.onward ⟨stack', after⟩] := by
  induction n with
  | zero => exact fun _ shifted => by simp [Facts.shiftAt] at shifted
  | succ n ih =>
    intro stack v shows shifted
    rw [Facts.shiftAt] at shifted
    split at shifted
    · next sole =>
      obtain ⟨stack', shows', word', done⟩ := resolve_shift (r := r) traced shows fits sole shifted
      refine ⟨stack', shows', word', ?_⟩
      intro after fuel enough
      obtain ⟨fuel, rfl⟩ : ∃ m, fuel = m + 1 := ⟨fuel - 1, by omega⟩
      exact done after fuel
    · next p sole =>
      obtain ⟨v₁, contracted, later⟩ := Option.bind_eq_some_iff.1 shifted
      obtain ⟨stack₁, shows₁, word₁, first⟩ := resolve_reduce (r := r) traced shows fits sole contracted
      obtain ⟨stack₂, shows₂, word₂, rest⟩ := ih shows₁ later
      refine ⟨stack₂, shows₂, by rw [word₂, word₁], ?_⟩
      intro after fuel enough
      obtain ⟨fuel, rfl⟩ : ∃ m, fuel = m + 1 := ⟨fuel - 1, by omega⟩
      rw [first]
      exact rest after fuel (by omega)
    · cases shifted

/-- The parser makes the reductions that were worked out for several tokens. -/
theorem resolve_reduceAll (traced : Traced f a view) {tokens : List Nat} (among : token ∈ tokens)
    (fits : token < f.grammar.tokens) (n : Nat) :
    ∀ {stack v}, Shows f view stack v →
      ∃ stack' m, Shows f view stack' (f.reduceAll tokens n v) ∧ word stack' = word stack ∧
        m ≤ n ∧ ∀ after fuel,
          resolve a r after (fuel + m) token stack = resolve a r after fuel token stack' := by
  induction n with
  | zero => exact fun {stack v} shows => ⟨stack, 0, shows, rfl, Nat.le_refl 0, fun _ _ => rfl⟩
  | succ n ih =>
    intro stack v shows
    have stays : ∃ stack' m, Shows f view stack' v ∧ word stack' = word stack ∧ m ≤ n + 1 ∧
        ∀ after fuel, resolve a r after (fuel + m) token stack =
          resolve a r after fuel token stack' :=
      ⟨stack, 0, shows, rfl, by omega, fun _ _ => rfl⟩
    rw [Facts.reduceAll]
    split
    · next p all =>
      split
      · next v₁ contracted =>
        have sole : f.actionAt v token = ⟨[p], false⟩ := by
          have inside : f.actionAt v token ∈ (tokens.map (f.actionAt v)).eraseDups :=
            List.mem_eraseDups.2 (List.mem_map_of_mem among)
          rw [all] at inside
          exact List.mem_singleton.1 inside
        obtain ⟨stack₁, shows₁, word₁, first⟩ :=
          resolve_reduce (r := r) traced shows fits sole contracted
        obtain ⟨stack₂, m, shows₂, word₂, less, rest⟩ := ih shows₁
        refine ⟨stack₂, m + 1, shows₂, word₂.trans word₁, by omega, ?_⟩
        intro after fuel
        rw [← Nat.add_assoc, first, rest]
      · exact stays
    · exact stays

/-- At the end of the text the goal alone on the stack is the whole tree. -/
theorem resolve_whole (traced : Traced f a view) {k : Kernel} (shows : Shows f view stack [(k, x)])
    (fits : token < f.grammar.tokens) (sole : f.actionAt [(k, x)] token = ⟨[f.whole], false⟩) :
    ∃ tree, tree.leaves = word stack ∧ ∀ after fuel,
      resolve a r after (fuel + 1) token stack = [.whole tree] := by
  match stack, shows with
  | [], shows => cases shows.seen
  | _ :: _ :: _, shows => cases shows.seen
  | [frame], shows =>
    refine ⟨frame.tree, by simp [word, Tree.leavesOf], ?_⟩
    intro after fuel
    have action := (shows.action traced fits).trans sole
    have means : r.meaning a (a.top [frame]) token = token := meaning_of_possible (by rw [action]; rfl)
    have same : f.whole = a.whole := traced.mirrors.whole.symm
    simp [resolve, means, action, same, wholeTree]

/-! ## One thread -/

theorem run_of_onward [BEq σ] {thread thread' : Thread σ ρ} {chain : Nat}
    (stepped : thread.step a r chain = [.onward thread']) (fuel : Nat) :
    run a r chain (fuel + 1) [thread] = run a r chain fuel [thread'] := by
  simp [run, stepped, firstWhole, onward, distinct]

theorem run_of_whole [BEq σ] {thread : Thread σ ρ} {chain : Nat}
    (stepped : thread.step a r chain = [.whole tree]) (fuel : Nat) :
    run a r chain (fuel + 1) [thread] = some tree := by
  simp [run, stepped, firstWhole]

/-- A thread that cannot go on reads no whole text. -/
theorem run_of_stuck [BEq σ] {thread : Thread σ ρ} {chain : Nat}
    (stepped : thread.step a r chain = []) (fuel : Nat) : run a r chain fuel [thread] = none := by
  cases fuel with
  | zero => rfl
  | succ fuel =>
    cases fuel with
    | zero => simp [run, stepped, firstWhole]
    | succ fuel => simp [run, stepped, firstWhole, onward, distinct]

end DefTally.Grammar
