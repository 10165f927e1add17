import DefTally.Grammar.Parser
import DefTally.Proofs.Grammar.Table

/-!
# What a parser builds

`Derived` tells the trees that a grammar's productions derive. The invariant of a parse is
`Stands`: the states on the stack lead on from each other by the symbols of their trees, and every
tree is derived. What a token can come to is said once (`resolution_of_mem`); each of the cases
keeps the invariant, so that the tree of a whole text derives from the goal of the grammar
(`parse_derives`).
-/

namespace DefTally.Grammar

/-- The tree is built with the productions of a grammar. -/
inductive Derived (g : Grammar) : Tree → Prop where
  | leaf {token : Nat} (fits : token < g.tokens) : Derived g (.leaf token)
  | node {p : Production} {children : List Tree} (production : p ∈ g.allProductions)
      (symbols : children.map Tree.symbol = p.body.map Step.symbol)
      (parts : ∀ c ∈ children, Derived g c) : Derived g (.node p children)

/-- All tokens that are read are tokens of the grammar. -/
structure Reader.Within {ρ : Type} (r : Reader ρ) (g : Grammar) : Prop where
  next : ∀ expects place token after, r.next expects place = some (token, after) → token < g.tokens
  plain : ∀ token meant, r.plain token = some meant → meant < g.tokens

variable {σ ρ : Type} {g : Grammar} {f : Facts} {a : Automaton σ} {r : Reader ρ} {view : σ → Kernel}
  {stack stack' : List (Frame σ)} {p : Production} {token : Nat} {tree : Tree}

theorem Derived.isSymbol (closed : g.Closed) (h : Derived g tree) : g.IsSymbol tree.symbol := by
  cases h with
  | leaf fits => exact fits
  | node production symbols parts => exact closed.heads _ production

theorem Reader.Within.meaning (within : r.Within g) (a : Automaton σ) (s : σ)
    (fits : token < g.tokens) : r.meaning a s token < g.tokens := by
  unfold Reader.meaning
  split
  · exact fits
  · cases plain : r.plain token with
    | none => exact fits
    | some meant => exact within.plain token meant plain

/-! ## Stacks -/

/-- Each state is where the symbol of its tree leads from the state below. -/
def Linked (a : Automaton σ) : List (Frame σ) → Prop
  | [] => True
  | frame :: rest => a.next (a.top rest) frame.tree.symbol = some frame.state ∧ Linked a rest

/-- The invariant of a parse: the states lead on from each other, and the trees are derived. -/
structure Stands (g : Grammar) (a : Automaton σ) (stack : List (Frame σ)) : Prop where
  linked : Linked a stack
  derived : ∀ frame ∈ stack, Derived g frame.tree

theorem Stands.nil : Stands g a [] := ⟨trivial, fun _ h => absurd h List.not_mem_nil⟩

theorem Linked.of_append {above below : List (Frame σ)} (h : Linked a (above ++ below)) :
    Linked a below := by
  induction above with
  | nil => exact h
  | cons frame rest ih => exact ih h.2

theorem Stands.of_append {above below : List (Frame σ)} (h : Stands g a (above ++ below)) :
    Stands g a below :=
  ⟨h.linked.of_append, fun frame inside => h.derived frame (List.mem_append_right _ inside)⟩

theorem Stands.tail {frame : Frame σ} (h : Stands g a (frame :: stack)) : Stands g a stack :=
  ⟨h.linked.2, fun other inside => h.derived other (List.mem_cons_of_mem _ inside)⟩

theorem Stands.push (h : Stands g a stack) (derived : Derived g tree)
    (pushed : a.push stack tree = some stack') : Stands g a stack' := by
  obtain ⟨state, leads, rfl⟩ := Option.map_eq_some_iff.1 pushed
  refine ⟨⟨leads, h.linked⟩, ?_⟩
  rintro frame (_ | ⟨_, inside⟩)
  · exact derived
  · exact h.derived frame inside

/-- Taking symbols off a stack takes the frames of these symbols. -/
theorem unstack_eq_some {xs : List Symbol} :
    ∀ {taken trees : List Tree} {stack below : List (Frame σ)},
      unstack taken xs stack = some (trees, below) →
        ∃ above, stack = above ++ below ∧ above.map (·.tree.symbol) = xs ∧
          trees = (above.map (·.tree)).reverse ++ taken := by
  induction xs with
  | nil =>
    intro taken trees stack below h
    simp only [unstack, Option.some.injEq, Prod.mk.injEq] at h
    exact ⟨[], h.2, rfl, h.1.symm⟩
  | cons x xs ih =>
    intro taken trees stack below h
    cases stack with
    | nil => simp [unstack] at h
    | cons frame rest =>
      rw [unstack] at h
      split at h
      · next same =>
        obtain ⟨above, rfl, symbols, rfl⟩ := ih h
        refine ⟨frame :: above, rfl, ?_, by simp⟩
        rw [List.map_cons, symbols, same]
      · cases h

/-- A reduction puts a node of the production in the place of its parts. -/
theorem reduce_eq_some (h : a.reduce stack p = some stack') :
    ∃ above below, stack = above ++ below ∧
      (above.map (·.tree)).reverse.map Tree.symbol = p.body.map Step.symbol ∧
        a.push below (.node p (above.map (·.tree)).reverse) = some stack' := by
  unfold Automaton.reduce at h
  split at h
  · cases h
  · next trees below taken =>
    obtain ⟨above, rfl, symbols, rfl⟩ := unstack_eq_some taken
    rw [List.append_nil] at h
    refine ⟨above, below, rfl, ?_, h⟩
    have same := congrArg List.reverse symbols
    simpa [Function.comp_def] using same

theorem Stands.reduce (h : Stands g a stack) (production : p ∈ g.allProductions)
    (reduced : a.reduce stack p = some stack') : Stands g a stack' := by
  obtain ⟨above, below, rfl, symbols, pushed⟩ := reduce_eq_some reduced
  refine h.of_append.push (.node production symbols ?_) pushed
  intro c inside
  obtain ⟨frame, inAbove, rfl⟩ := List.mem_map.1 (List.mem_reverse.1 inside)
  exact h.derived frame (List.mem_append_left _ inAbove)

/-! ## The states of a stack -/

theorem next_eq_some_iff {k k' : Kernel} {x : Symbol} :
    f.next k x = some k' ↔ advance (f.items k) x = k' ∧ k' ≠ [] := by
  unfold Facts.next
  split
  · next none =>
    rw [none]
    exact ⟨fun h => by simp at h, fun h => absurd h.1.symm h.2⟩
  · next some => simp only [Option.some.injEq, iff_self_and]; rintro rfl; exact some

/-- The state on top of a stack is that of the items which the top symbol leads to. -/
theorem Stands.view_state {frame : Frame σ} (mirrors : Mirrors f.grammar a f.automaton view)
    (closed : f.grammar.Closed) (h : Stands f.grammar a (frame :: stack)) :
    view frame.state = advance (f.items (view (a.top stack))) frame.tree.symbol := by
  have symbol := (h.derived frame List.mem_cons_self).isSymbol closed
  have leads := mirrors.next (a.top stack) _ symbol
  rw [h.linked.1, Option.map_some] at leads
  exact (next_eq_some_iff.1 leads.symm).1.symm

/-- The states of a stack are of known productions. -/
theorem Stands.known (mirrors : Mirrors f.grammar a f.automaton view) (closed : f.grammar.Closed)
    (h : Stands f.grammar a stack) : f.Known (view (a.top stack)) := by
  induction stack with
  | nil =>
    rw [Automaton.top, mirrors.start]
    exact .start f
  | cons frame rest ih =>
    rw [Automaton.top, h.view_state mirrors closed]
    exact (ih h.tail).items.advance _

/-- What is reduced is a production of the grammar, or the whole text after its goal. -/
theorem Stands.reduces (mirrors : Mirrors f.grammar a f.automaton view) (closed : f.grammar.Closed)
    (h : Stands f.grammar a stack) (fits : token < f.grammar.tokens)
    (reduced : p ∈ (a.action (a.top stack) token).reduce) :
    p ∈ f.grammar.allProductions ∨
      (p = f.whole ∧ ∀ frame, stack.head? = some frame →
        frame.tree.symbol = .phrase f.grammar.goal) := by
  rw [mirrors.action _ _ fits] at reduced
  obtain ⟨i, inside, done, -, rfl⟩ := mem_reduce_action reduced
  rcases Facts.mem_items inside with inKernel | ⟨-, isProduction⟩
  · rcases h.known mirrors closed i inKernel with isProduction | isWhole
    · exact Or.inl isProduction
    · refine Or.inr ⟨isWhole, ?_⟩
      intro frame top
      cases stack with
      | nil => cases top
      | cons frame' rest =>
        cases top
        rw [Automaton.top, h.view_state mirrors closed] at inKernel
        obtain ⟨j, -, comes, rfl⟩ := mem_advance.1 inKernel
        -- the production has one step, so that the dot stood before it
        obtain ⟨s, at_, symbol⟩ := Option.map_eq_some_iff.1 comes
        rw [show j.production = f.whole from isWhole] at at_
        have one : s ∈ f.whole.body := List.mem_of_getElem? at_
        rw [Facts.whole, List.mem_singleton] at one
        rw [← symbol, one]
  · exact Or.inl isProduction

/-- What is shifted stands in a production of the grammar. -/
theorem Stands.shifts (mirrors : Mirrors f.grammar a f.automaton view) (closed : f.grammar.Closed)
    (h : Stands f.grammar a stack) (fits : token < f.grammar.tokens)
    (shifted : (a.action (a.top stack) token).shift = true) :
    ∃ p ∈ f.grammar.allProductions, .token token ∈ p.body.map Step.symbol := by
  rw [mirrors.action _ _ fits] at shifted
  obtain ⟨i, inside, comes⟩ := exists_of_shift_action shifted
  obtain ⟨s, at_, symbol⟩ := Option.map_eq_some_iff.1 comes
  have inBody : s ∈ i.production.body := List.mem_of_getElem? at_
  rcases (h.known mirrors closed).items i inside with isProduction | isWhole
  · exact ⟨i.production, isProduction, List.mem_map.2 ⟨s, inBody, symbol⟩⟩
  · rw [isWhole, Facts.whole, List.mem_singleton] at inBody
    rw [inBody] at symbol
    cases symbol

/-! ## Steps -/

/-- What a token comes to that is read with a meaning, with some reductions left after the first: the
whole text is done, or a reduction is made and the token is resolved after it, or the token is
shifted. -/
inductive Resolution (a : Automaton σ) (r : Reader ρ) (after : ρ) (fuel meant : Nat)
    (stack : List (Frame σ)) : Progress σ ρ → Prop where
  | whole {frame : Frame σ} (alone : stack = [frame])
      (reduces : a.whole ∈ (a.action (a.top stack) meant).reduce) :
      Resolution a r after fuel meant stack (.whole frame.tree)
  | reduce {p : Production} {stack' : List (Frame σ)} {progress : Progress σ ρ}
      (reduces : p ∈ (a.action (a.top stack) meant).reduce) (other : p ≠ a.whole)
      (reduced : a.reduce stack p = some stack')
      (later : progress ∈ resolve a r after fuel meant stack') :
      Resolution a r after fuel meant stack progress
  | shift {stack' : List (Frame σ)} (shifts : (a.action (a.top stack) meant).shift = true)
      (pushed : a.push stack (.leaf meant) = some stack') :
      Resolution a r after fuel meant stack (.onward ⟨stack', after⟩)

theorem eq_singleton_of_wholeTree (h : wholeTree stack = some tree) :
    ∃ frame, stack = [frame] ∧ frame.tree = tree := by
  rcases stack with - | ⟨frame, - | ⟨below, rest⟩⟩
  · cases h
  · exact ⟨frame, rfl, Option.some.inj h⟩
  · cases h

theorem resolution_of_mem {after : ρ} {fuel : Nat} {progress : Progress σ ρ}
    (inside : progress ∈ resolve a r after (fuel + 1) token stack) :
    Resolution a r after fuel (r.meaning a (a.top stack) token) stack progress := by
  rw [resolve] at inside
  rcases List.mem_append.1 inside with reduced | shifted
  · obtain ⟨p, reduces, inside⟩ := List.mem_flatMap.1 reduced
    split at inside
    · next isWhole =>
      split at inside
      · next tree whole =>
        obtain ⟨frame, alone, rfl⟩ := eq_singleton_of_wholeTree whole
        rw [List.mem_singleton.1 inside]
        exact .whole alone (isWhole ▸ reduces)
      · cases inside
    · next other =>
      split at inside
      · next stack' reduced => exact .reduce reduces other reduced inside
      · cases inside
  · split at shifted
    · next shifts =>
      split at shifted
      · next stack' pushed =>
        rw [List.mem_singleton.1 shifted]
        exact .shift shifts pushed
      · cases shifted
    · cases shifted

/-- A step of a parse leads to stacks that stand and to trees of whole texts. -/
def Progress.Sound (g : Grammar) (a : Automaton σ) : Progress σ ρ → Prop
  | .onward thread => Stands g a thread.stack
  | .whole tree => Derived g tree ∧ tree.symbol = .phrase g.goal

theorem Mirrors.whole_not_mem (mirrors : Mirrors f.grammar a f.automaton view)
    (closed : f.grammar.Closed) : a.whole ∉ f.grammar.allProductions := by
  intro inside
  have less := closed.heads _ inside
  rw [mirrors.whole] at less
  exact absurd less (Nat.lt_irrefl _)

theorem resolve_sound (mirrors : Mirrors f.grammar a f.automaton view) (closed : f.grammar.Closed)
    (within : r.Within f.grammar) (after : ρ) (fuel : Nat) :
    ∀ {token stack}, token < f.grammar.tokens → Stands f.grammar a stack →
      ∀ progress ∈ resolve a r after fuel token stack, progress.Sound f.grammar a := by
  induction fuel with
  | zero => exact fun _ _ _ h => absurd h List.not_mem_nil
  | succ fuel ih =>
    intro token stack fits stands progress inside
    have fits' := within.meaning a (a.top stack) fits
    cases resolution_of_mem inside with
    | @whole frame alone reduces =>
      refine ⟨stands.derived frame (by simp [alone]), ?_⟩
      rcases stands.reduces mirrors closed fits' reduces with isProduction | ⟨-, goal⟩
      · exact absurd isProduction (mirrors.whole_not_mem closed)
      · exact goal frame (by simp [alone])
    | reduce reduces other reduced later =>
      rcases stands.reduces mirrors closed fits' reduces with isProduction | ⟨isWhole, -⟩
      · exact ih fits' (stands.reduce isProduction reduced) progress later
      · exact absurd (isWhole.trans mirrors.whole.symm) other
    | shift shifts pushed => exact stands.push (.leaf fits') pushed

theorem step_sound (mirrors : Mirrors f.grammar a f.automaton view) (closed : f.grammar.Closed)
    (within : r.Within f.grammar) (chain : Nat) {thread : Thread σ ρ}
    (stands : Stands f.grammar a thread.stack) :
    ∀ progress ∈ thread.step a r chain, progress.Sound f.grammar a := by
  intro progress inside
  unfold Thread.step at inside
  split at inside
  · cases inside
  · next token after read =>
    split at inside
    · rw [List.mem_singleton.1 inside]
      exact stands
    · exact resolve_sound mirrors closed within after _ (within.next _ _ _ _ read) stands
        progress inside

/-! ## Runs -/

theorem mem_onward {thread : Thread σ ρ} {results : List (Progress σ ρ)}
    (h : thread ∈ onward results) : .onward thread ∈ results := by
  fun_induction onward results with
  | case1 => cases h
  | case2 t rest ih =>
    rcases List.mem_cons.1 h with rfl | later
    · exact List.mem_cons_self
    · exact List.mem_cons_of_mem _ (ih later)
  | case3 tree rest ih => exact List.mem_cons_of_mem _ (ih h)

theorem firstWhole_mem {results : List (Progress σ ρ)} (h : firstWhole results = some tree) :
    .whole tree ∈ results := by
  fun_induction firstWhole results with
  | case1 => cases h
  | case2 t rest ih => exact List.mem_cons_of_mem _ (ih h)
  | case3 tree' rest =>
    rw [Option.some.inj h]
    exact List.mem_cons_self

/-- Only threads that were there are left. -/
theorem mem_of_mem_distinct [BEq σ] {thread : Thread σ ρ} {threads : List (Thread σ ρ)}
    (h : thread ∈ distinct r threads) : thread ∈ threads := by
  induction threads using List.reverseRecOn with
  | nil => exact h
  | append_singleton rest last ih =>
    unfold distinct at h ih
    rw [List.foldl_append, List.foldl_cons, List.foldl_nil] at h
    split at h
    · exact List.mem_append_left _ (ih h)
    · rcases List.mem_append.1 h with kept | new
      · exact List.mem_append_left _ (ih kept)
      · exact List.mem_append_right _ new

theorem run_derives [BEq σ] (mirrors : Mirrors f.grammar a f.automaton view)
    (closed : f.grammar.Closed) (within : r.Within f.grammar) (chain fuel : Nat) :
    ∀ {threads : List (Thread σ ρ)}, (∀ thread ∈ threads, Stands f.grammar a thread.stack) →
      run a r chain fuel threads = some tree →
        Derived f.grammar tree ∧ tree.symbol = .phrase f.grammar.goal := by
  induction fuel with
  | zero => exact fun _ h => by simp [run] at h
  | succ fuel ih =>
    intro threads stand ran
    cases threads with
    | nil => simp [run] at ran
    | cons first others =>
      have sound : ∀ progress ∈ (first :: others).flatMap (Thread.step a r chain),
          progress.Sound f.grammar a := by
        intro progress inside
        obtain ⟨thread, among, stepped⟩ := List.mem_flatMap.1 inside
        exact step_sound mirrors closed within chain (stand thread among) progress stepped
      simp only [run] at ran
      split at ran
      · next found =>
        cases ran
        exact sound _ (firstWhole_mem found)
      · refine ih ?_ ran
        intro thread inside
        exact sound _ (mem_onward (mem_of_mem_distinct inside))

/-- The tree of a whole text is derived from the goal of the grammar. -/
theorem parse_derives [BEq σ] (mirrors : Mirrors f.grammar a f.automaton view)
    (closed : f.grammar.Closed) (within : r.Within f.grammar) {chain rounds : Nat} {place : ρ}
    (h : parse a r chain rounds place = some tree) :
    Derived f.grammar tree ∧ tree.symbol = .phrase f.grammar.goal := by
  refine run_derives mirrors closed within chain rounds ?_ h
  intro thread inside
  rw [List.mem_singleton.1 inside]
  exact .nil

end DefTally.Grammar
