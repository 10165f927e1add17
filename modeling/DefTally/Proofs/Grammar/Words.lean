import DefTally.Proofs.Grammar.Trace
import Mathlib.Data.List.Chain

/-!
# The tokens of derived trees

What a check of every production says about the tokens of all trees that are derived. Where two
tokens stand equally often in every production, they stand equally often in every whole text
(`Derived.balanced`). Where no symbol that ends in some way stands before one that begins in some
way, no such tokens stand next to each other (`Derived.spaced`).

The last section says what a step of the parser does to the tokens on its stack.
-/

namespace DefTally.Grammar

variable {g : Grammar} {tree : Tree} {trees : List Tree} {p : Production} {x : Symbol}

/-! ## Tokens that stand equally often -/

/-- Two tokens stand equally often in a production. -/
def Production.isBalanced (opens closes : Nat) (p : Production) : Bool :=
  (p.body.map Step.symbol).count (.token opens) == (p.body.map Step.symbol).count (.token closes)

/-- The first token is found as often in a tree as the second, but for a tree that is one of them. -/
def Tree.Balanced (opens closes : Nat) (tree : Tree) : Prop :=
  tree.leaves.count opens + [tree.symbol].count (.token closes) =
    tree.leaves.count closes + [tree.symbol].count (.token opens)

variable {opens closes : Nat}

/-- A token is balanced against its own symbol. -/
theorem balanced_leaf (t : Nat) : (Tree.leaf t).Balanced opens closes := by
  have same : ∀ u, [t].count u = [Symbol.token t].count (.token u) := by simp [List.count_singleton]
  simp only [Tree.Balanced, Tree.leaves, Tree.symbol, same, Nat.add_comm]

/-- Trees that are balanced are so one after the other. -/
theorem balanced_all (each : ∀ tree ∈ trees, tree.Balanced opens closes) :
    (Tree.leavesOf trees).count opens + (trees.map Tree.symbol).count (.token closes) =
      (Tree.leavesOf trees).count closes + (trees.map Tree.symbol).count (.token opens) := by
  induction trees with
  | nil => simp [Tree.leavesOf]
  | cons tree rest ih =>
    have first : tree.Balanced opens closes := each tree List.mem_cons_self
    have later := ih fun other inside => each other (List.mem_cons_of_mem _ inside)
    simp only [Tree.Balanced] at first
    rw [Tree.leavesOf, List.map_cons, List.count_append, List.count_append, ← List.singleton_append,
      List.count_append, List.count_append]
    omega

/-- If two tokens are balanced in all productions, they are in every tree that is derived. -/
theorem Derived.balanced (check : ∀ p ∈ g.allProductions, p.isBalanced opens closes = true)
    (h : Derived g tree) : tree.Balanced opens closes := by
  induction h with
  | leaf fits => exact balanced_leaf _
  | @node p children production symbols parts ih =>
    have equal := check _ production
    simp only [Production.isBalanced, beq_iff_eq, ← symbols] at equal
    have all := balanced_all ih
    simp only [Tree.Balanced, Tree.leaves, Tree.symbol]
    simp only [List.count_singleton]
    simp only [reduceCtorEq, beq_iff_eq, if_false]
    omega

/-- Two tokens that stand equally often in every production are found equally often in a tree. -/
theorem Derived.count_eq (check : ∀ p ∈ g.allProductions, p.isBalanced opens closes = true)
    {q : Nat} (h : Derived g tree) (phrase : tree.symbol = .phrase q) :
    tree.leaves.count opens = tree.leaves.count closes := by
  have balanced : tree.Balanced opens closes := h.balanced check
  simpa [Tree.Balanced, phrase] using balanced

/-! ## Tokens that do not stand next to each other -/

/-- No symbol that ends in some way is followed by one that begins in some way. -/
def apart (ends begins : Symbol → Bool) : List Symbol → Bool
  | x :: y :: rest => !(ends x && begins y) && apart ends begins (y :: rest)
  | _ => true

/-- A phrase begins and ends as its first and last symbols do, which are apart within it. Only the
goal may be without symbols, and it stands in no production. -/
def Production.isSpaced (g : Grammar) (ends begins : Symbol → Bool) (p : Production) : Bool :=
  let symbols := p.body.map Step.symbol
  apart ends begins symbols &&
    symbols.head?.all (fun x => !begins x || begins (.phrase p.head)) &&
    symbols.getLast?.all (fun x => !ends x || ends (.phrase p.head)) &&
    (!symbols.isEmpty || p.head == g.goal) && !symbols.contains (.phrase g.goal)

variable {ends begins : Symbol → Bool}

/-- Symbols are apart if no two that stand next to each other meet. -/
theorem apart_iff {xs : List Symbol} : apart ends begins xs = true ↔
    xs.IsChain fun x y => ¬(ends x = true ∧ begins y = true) := by
  fun_induction apart ends begins xs with
  | case1 x y rest ih =>
    rw [List.isChain_cons_cons, ← ih, Bool.and_eq_true, Bool.not_eq_true', Bool.and_eq_false_iff]
    simp only [not_and_or, Bool.not_eq_true]
  | case2 xs short =>
    rcases xs with - | ⟨x, - | ⟨y, rest⟩⟩
    · simp
    · simp
    · exact absurd rfl (short x y rest)

theorem apart_cons (x : Symbol) (xs : List Symbol) : apart ends begins (x :: xs) =
    (!(ends x && xs.head?.any begins) && apart ends begins xs) := by
  cases xs with
  | nil => simp [apart]
  | cons y rest => simp [apart]

/-- What is known of the tokens of a tree that is part of another one. -/
structure Tree.Spaced (ends begins : Symbol → Bool) (tree : Tree) : Prop where
  filled : tree.leaves ≠ []
  first : ∀ t ∈ tree.leaves.head?, begins (.token t) = true → begins tree.symbol = true
  last : ∀ t ∈ tree.leaves.getLast?, ends (.token t) = true → ends tree.symbol = true
  apart : apart ends begins (tree.leaves.map .token) = true

theorem spaced_leaf (t : Nat) : (Tree.leaf t).Spaced ends begins where
  filled := by simp [Tree.leaves]
  first u same := by
    cases same
    exact id
  last u same := by
    cases same
    exact id
  apart := by simp [Tree.leaves, apart]

theorem leavesOf_eq_flatten (trees : List Tree) :
    Tree.leavesOf trees = (trees.map Tree.leaves).flatten := by
  induction trees with
  | nil => simp [Tree.leavesOf]
  | cons tree rest ih => rw [Tree.leavesOf, ih, List.map_cons, List.flatten_cons]

/-- Trees whose symbols are apart have tokens that are apart, within them and where they meet. -/
theorem apart_leavesOf (each : ∀ tree ∈ trees, tree.Spaced ends begins)
    (symbols : apart ends begins (trees.map Tree.symbol) = true) :
    apart ends begins ((Tree.leavesOf trees).map .token) = true := by
  have filled : [] ∉ trees.map Tree.leaves := by
    intro inside
    obtain ⟨tree, among, empty⟩ := List.mem_map.1 inside
    exact (each tree among).filled empty
  rw [apart_iff, List.isChain_map] at symbols ⊢
  rw [leavesOf_eq_flatten, List.isChain_flatten filled]
  refine ⟨?_, ?_⟩
  · intro word inside
    obtain ⟨tree, among, rfl⟩ := List.mem_map.1 inside
    have within := (each tree among).apart
    rwa [apart_iff, List.isChain_map] at within
  · rw [List.isChain_map]
    refine List.IsChain.imp_of_mem_imp ?_ symbols
    rintro a b inA inB clear t last u first ⟨ending, beginning⟩
    exact clear ⟨(each a inA).last t last ending, (each b inB).first u first beginning⟩

/-- A phrase is spaced if its production and its parts are. -/
theorem spaced_node (production : p.isSpaced g ends begins = true)
    (symbols : trees.map Tree.symbol = p.body.map Step.symbol) (each : ∀ tree ∈ trees, tree.Spaced ends begins)
    (inner : p.head ≠ g.goal) : (Tree.node p trees).Spaced ends begins := by
  simp only [Production.isSpaced, Bool.and_eq_true, Bool.or_eq_true, beq_iff_eq, Bool.not_eq_true',
    List.isEmpty_eq_false_iff, ← symbols] at production
  obtain ⟨⟨⟨⟨apart_, first_⟩, last_⟩, filled_⟩, -⟩ := production
  have some : trees ≠ [] := by simpa using filled_.resolve_right inner
  have flat : (Tree.node p trees).leaves = (trees.map Tree.leaves).flatten := by
    rw [Tree.leaves, leavesOf_eq_flatten]
  refine ⟨?_, ?_, ?_, ?_⟩
  · obtain ⟨tree, rest, rfl⟩ := List.exists_cons_of_ne_nil some
    rw [flat, List.map_cons, List.flatten_cons]
    exact List.append_ne_nil_of_left_ne_nil (each tree List.mem_cons_self).filled _
  · intro t isFirst begins_
    obtain ⟨tree, rest, rfl⟩ := List.exists_cons_of_ne_nil some
    have spaced := each tree List.mem_cons_self
    rw [flat, List.map_cons, List.flatten_cons, List.head?_append_of_ne_nil _ spaced.filled] at isFirst
    have beginning := spaced.first t isFirst begins_
    change begins (.phrase p.head) = true
    simpa [beginning] using first_
  · intro t isLast ends_
    obtain ⟨front, tree, rfl⟩ := (List.eq_nil_or_concat trees).resolve_left some
    have spaced := each tree (by simp)
    rw [flat, List.concat_eq_append, List.map_append, List.flatten_append, List.map_singleton, List.flatten_singleton,
      List.getLast?_append_of_ne_nil _ spaced.filled] at isLast
    have ending := spaced.last t isLast ends_
    change ends (.phrase p.head) = true
    simpa [ending] using last_
  · rw [Tree.leaves]
    exact apart_leavesOf each apart_

/-- The tokens of a tree are apart if the symbols of all productions are. -/
theorem Derived.spaced (check : ∀ p ∈ g.allProductions, p.isSpaced g ends begins = true)
    (h : Derived g tree) :
    apart ends begins (tree.leaves.map .token) = true ∧
      (tree.symbol ≠ .phrase g.goal → tree.Spaced ends begins) := by
  induction h with
  | leaf fits => exact ⟨(spaced_leaf _).apart, fun _ => spaced_leaf _⟩
  | @node p children production symbols parts ih =>
    have checked := check p production
    have each : ∀ c ∈ children, c.Spaced ends begins := by
      intro c inside
      refine (ih c inside).2 fun isGoal => ?_
      have among : c.symbol ∈ p.body.map Step.symbol := symbols ▸ List.mem_map_of_mem inside
      simp only [Production.isSpaced, Bool.and_eq_true, Bool.not_eq_true', List.contains_eq_mem,
        decide_eq_false_iff_not] at checked
      exact checked.2 (isGoal ▸ among)
    refine ⟨?_, fun inner => ?_⟩
    · have checked := check p production
      simp only [Production.isSpaced, Bool.and_eq_true, ← symbols] at checked
      rw [Tree.leaves]
      exact apart_leavesOf each checked.1.1.1.1
    · exact spaced_node checked symbols each fun same => inner (by rw [Tree.symbol, same])

/-! ## The tokens on a stack -/

variable {σ ρ : Type} {a : Automaton σ} {r : Reader ρ} {stack stack' : List (Frame σ)} {token : Nat}

/-- A token is read as it is, or with its plain meaning. -/
def Reader.Reads (r : Reader ρ) (token meant : Nat) : Prop :=
  meant = token ∨ r.plain token = some meant

/-- The meaning that a token has in a state is one of those that it may be read with. -/
theorem Reader.reads_meaning (r : Reader ρ) (a : Automaton σ) (s : σ) (token : Nat) :
    r.Reads token (r.meaning a s token) := by
  unfold Reader.meaning
  split
  · exact .inl rfl
  · cases plain : r.plain token with
    | none => exact .inl rfl
    | some meant => exact .inr plain

/-- A plain meaning has no other meaning. -/
def Reader.PlainOnce (r : Reader ρ) : Prop := ∀ t u, r.plain t = some u → r.plain u = none

/-- Reading twice is reading once. -/
theorem Reader.PlainOnce.trans (once : r.PlainOnce) {t u v : Nat} (first : r.Reads t u)
    (second : r.Reads u v) : r.Reads t v := by
  rcases first with rfl | plain
  · exact second
  · rcases second with rfl | again
    · exact .inr plain
    · rw [once t u plain] at again
      cases again

/-- Pushing a tree adds its tokens to those on the stack. -/
theorem word_push {tree : Tree} (pushed : a.push stack tree = some stack') :
    word stack' = word stack ++ tree.leaves := by
  obtain ⟨state, -, rfl⟩ := Option.map_eq_some_iff.1 pushed
  exact word_cons _ _

/-- A reduction leaves the tokens on the stack as they are. -/
theorem word_reduce (reduced : a.reduce stack p = some stack') : word stack' = word stack := by
  obtain ⟨above, below, rfl, -, pushed⟩ := reduce_eq_some reduced
  rw [word_push pushed, word_append, Tree.leaves]

/-- What is read of the text once a token is resolved: the token too, or the whole text. -/
def Progress.Extends (r : Reader ρ) (word : List Nat) (token : Nat) (after : ρ) :
    Progress σ ρ → Prop
  | .onward th => th.place = after ∧ ∃ meant, r.Reads token meant ∧ Grammar.word th.stack = word ++ [meant]
  | .whole tree => tree.leaves = word

/-- However a token is resolved, it is read after what is on the stack, or ends the text. -/
theorem resolve_extends (once : r.PlainOnce) (after : ρ) (fuel : Nat) :
    ∀ {token stack}, ∀ progress ∈ resolve a r after fuel token stack,
      progress.Extends r (word stack) token after := by
  induction fuel with
  | zero => exact fun _ h => absurd h List.not_mem_nil
  | succ fuel ih =>
    intro token stack progress inside
    have meant := r.reads_meaning a (a.top stack) token
    cases resolution_of_mem inside with
    | whole alone =>
      subst alone
      simp [Progress.Extends, word, Tree.leavesOf]
    | reduce reduces other reduced later =>
      have extends_ := ih progress later
      rw [word_reduce reduced] at extends_
      cases progress with
      | whole tree => exact extends_
      | onward th =>
        obtain ⟨place, meant', reads, word'⟩ := extends_
        exact ⟨place, meant', once.trans meant reads, word'⟩
    | shift shifts pushed => exact ⟨rfl, _, meant, by rw [word_push pushed, Tree.leaves]⟩

end DefTally.Grammar
