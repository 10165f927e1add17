import DefTally.Grammar.Automaton
import Mathlib.Data.List.Induction

/-!
# The table of an automaton

`Table.build` numbers kernels and works their states out once. Nothing a parser is told depends
on that: `build_mirrors` shows that the automaton of a table answers as the automaton of the
kernels themselves does, for the tokens and phrases of the grammar. The invariant is
`Table.Sound`: the index tells the number of a kernel, and every row describes its kernel.
-/

namespace DefTally.Grammar

/-! ## Symbols -/

/-- The symbol is one of the grammar's. -/
def IsSymbol (g : Grammar) : Symbol → Prop
  | .token t => t < g.tokens
  | .phrase p => p < g.productions.size

instance (g : Grammar) (x : Symbol) : Decidable (g.IsSymbol x) := by
  cases x <;> exact Nat.decLt _ _

/-- All productions of a grammar. -/
def allProductions (g : Grammar) : List Production := g.productions.toList.flatten

/-- The productions speak of the grammar's own symbols only. -/
structure Closed (g : Grammar) : Prop where
  heads : ∀ p ∈ g.allProductions, p.head < g.productions.size
  steps : ∀ p ∈ g.allProductions, ∀ s ∈ p.body, g.IsSymbol s.symbol
  goal : g.goal < g.productions.size
  ending : g.endOfText < g.tokens

variable {g : Grammar} {f : Facts} {t u : Table} {k : Kernel} {x y : Symbol} {its : List Item}
  {token : Nat}

theorem position_lt (h : g.IsSymbol x) : g.position x < g.symbolCount := by
  cases x with
  | token t =>
    have fits : t < g.tokens := h
    simp only [position, symbolCount]
    omega
  | phrase p =>
    have fits : p < g.productions.size := h
    simp only [position, symbolCount]
    omega

theorem position_inj (hx : g.IsSymbol x) (hy : g.IsSymbol y) :
    g.position x = g.position y ↔ x = y := by
  constructor
  · intro same
    cases x <;> cases y <;> simp only [IsSymbol, position] at hx hy same <;>
      simp only [Symbol.token.injEq, Symbol.phrase.injEq, reduceCtorEq] <;> omega
  · rintro rfl
    rfl

/-! ## The productions of items -/

/-- The production is the grammar's or that of the whole text. -/
def Facts.Knows (f : Facts) (p : Production) : Prop := p ∈ f.grammar.allProductions ∨ p = f.whole

/-- The items are of productions that are known. -/
def Facts.Known (f : Facts) (items : List Item) : Prop := ∀ i ∈ items, f.Knows i.production

theorem Facts.Known.start (f : Facts) : f.Known f.start := by
  intro i inside
  rw [List.mem_singleton.1 inside]
  exact Or.inr rfl

/-- An item of a state is in its kernel or begins a production of the grammar. -/
theorem Facts.mem_items {i : Item} (h : i ∈ f.items k) :
    i ∈ k ∨ (i.dot = 0 ∧ i.production ∈ f.grammar.allProductions) := by
  rcases List.mem_append.1 h with inKernel | added
  · exact Or.inl inKernel
  · obtain ⟨⟨productions, s⟩, paired, inside⟩ := List.mem_flatMap.1 added
    dsimp only at inside
    split at inside
    · cases inside
    · obtain ⟨p, isProduction, rfl⟩ := List.mem_map.1 inside
      exact Or.inr ⟨rfl, List.mem_flatten.2 ⟨_, (List.of_mem_zip paired).1, isProduction⟩⟩

theorem Facts.Known.items (h : f.Known k) : f.Known (f.items k) := by
  intro i inside
  rcases Facts.mem_items inside with inKernel | ⟨-, isProduction⟩
  · exact h i inKernel
  · exact Or.inl isProduction

/-- What comes after a symbol: an item that had it after its dot. -/
theorem mem_advance {i : Item} :
    i ∈ advance its x ↔ ∃ j ∈ its, j.next? = some x ∧ i = { j with dot := j.dot + 1 } := by
  simp only [advance, List.mem_filterMap, Item.past]
  constructor
  · rintro ⟨j, inside, h⟩
    split at h
    · next comes => exact ⟨j, inside, comes, (Option.some.inj h).symm⟩
    · cases h
  · rintro ⟨j, inside, comes, rfl⟩
    exact ⟨j, inside, if_pos comes⟩

theorem Facts.Known.advance (h : f.Known its) (x : Symbol) : f.Known (advance its x) := by
  intro i inside
  obtain ⟨j, from_, -, rfl⟩ := mem_advance.1 inside
  exact h j from_

/-- What comes next in a known item is a symbol of the grammar. -/
theorem Facts.Known.isSymbol (closed : f.grammar.Closed) (h : f.Known its) {i : Item}
    (inside : i ∈ its) (comes : i.next? = some x) : f.grammar.IsSymbol x := by
  obtain ⟨s, at_, rfl⟩ := Option.map_eq_some_iff.1 comes
  have inBody : s ∈ i.production.body := List.mem_of_getElem? at_
  rcases h i inside with isProduction | whole
  · exact closed.steps _ isProduction s inBody
  · rw [whole, Facts.whole] at inBody
    rw [List.mem_singleton.1 inBody]
    exact closed.goal

/-! ## Where symbols lead -/

theorem advance_cons (i : Item) (rest : List Item) (x : Symbol) :
    advance (i :: rest) x = (i.past x).toList ++ advance rest x := by
  unfold advance
  cases h : i.past x <;> simp [h]

theorem successorKernels_cons (g : Grammar) (i : Item) (rest : List Item) :
    g.successorKernels (i :: rest) = match i.next? with
      | some x => (g.successorKernels rest).modify (g.position x) ({ i with dot := i.dot + 1 } :: ·)
      | none => g.successorKernels rest := rfl

/-- The kernels are sorted out by symbol as `advance` would find them one by one. -/
theorem getElem?_successorKernels (hx : g.IsSymbol x)
    (symbols : ∀ i ∈ its, ∀ y, i.next? = some y → g.IsSymbol y) :
    (g.successorKernels its)[g.position x]? = some (advance its x) := by
  induction its with
  | nil =>
    have fits := position_lt hx
    simp [successorKernels, advance, fits]
  | cons i rest ih =>
    have later := ih fun j inside => symbols j (List.mem_cons_of_mem _ inside)
    rw [successorKernels_cons, advance_cons]
    cases comes : i.next? with
    | none =>
      have stays : i.past x = none := by simp [Item.past, comes]
      rw [stays]
      exact later
    | some y =>
      have hy := symbols i List.mem_cons_self y comes
      simp only [Array.getElem?_modify, position_inj hy hx, later]
      by_cases same : y = x
      · have moves : i.past x = some { i with dot := i.dot + 1 } := by simp [Item.past, comes, same]
        rw [if_pos same, moves]
        rfl
      · have stays : i.past x = none := by simp [Item.past, comes, same]
        rw [if_neg same, stays]
        rfl

/-! ## Where something is possible -/

theorem strongest_concat (its : List Item) (i : Item) :
    strongest (its ++ [i]) = match strongest its with
      | [] => [i]
      | b :: rest =>
        if b.precedence < i.precedence then [i]
        else if i.precedence < b.precedence then b :: rest
        else b :: rest ++ [i] := by
  unfold strongest
  rw [List.foldl_append]
  simp only [List.foldl_cons, List.foldl_nil]
  split <;> rename_i h <;> simp [h]

theorem strongest_eq_nil_iff : strongest its = [] ↔ its = [] := by
  constructor
  · induction its using List.reverseRecOn with
    | nil => exact fun _ => rfl
    | append_singleton rest i _ =>
      intro none
      rw [strongest_concat] at none
      repeat' split at none
      all_goals simp at none
  · rintro rfl
    rfl

/-- The items of highest precedence are among all of them. -/
theorem mem_of_mem_strongest {i : Item} (h : i ∈ strongest its) : i ∈ its := by
  induction its using List.reverseRecOn with
  | nil => exact h
  | append_singleton rest j ih =>
    rw [List.mem_append, List.mem_singleton]
    rw [strongest_concat] at h
    have either : i = j ∨ i ∈ strongest rest := by
      cases best : strongest rest with
      | nil =>
        rw [best] at h
        exact Or.inl (List.mem_singleton.1 h)
      | cons b others =>
        simp only [best] at h
        split at h
        · exact Or.inl (List.mem_singleton.1 h)
        · split at h
          · exact Or.inr h
          · rcases List.mem_append.1 h with kept | new
            · exact Or.inr kept
            · exact Or.inl (List.mem_singleton.1 new)
    rcases either with same | kept
    · exact Or.inr same
    · exact Or.inl (ih kept)

theorem possibleTokens_concat (its : List Item) (i : Item) :
    possibleTokens (its ++ [i]) = match i.next? with
      | some (.token t) => (possibleTokens its).union (.single t)
      | some (.phrase _) => possibleTokens its
      | none => (possibleTokens its).union i.followers := by
  unfold possibleTokens
  rw [List.foldl_append]
  rfl

/-- The possible tokens come next in an item, or may follow a finished one. -/
theorem has_possibleTokens :
    (possibleTokens its).has token = true ↔
      (∃ i ∈ its, i.next? = some (.token token)) ∨ finished its token ≠ [] := by
  induction its using List.reverseRecOn with
  | nil => simp [possibleTokens, finished, TokenSet.has]
  | append_singleton rest i ih =>
    have parts : finished (rest ++ [i]) token = finished rest token ++ finished [i] token := by
      simp [finished]
    have shifts : (∃ j ∈ rest ++ [i], j.next? = some (.token token)) ↔
        (∃ j ∈ rest, j.next? = some (.token token)) ∨ i.next? = some (.token token) := by
      simp [or_and_right, exists_or]
    rw [possibleTokens_concat, parts, shifts]
    cases comes : i.next? with
    | none =>
      by_cases follows : i.followers.has token = true
      · simp [TokenSet.has_union, finished, comes, follows]
      · simp [TokenSet.has_union, ih, finished, comes, follows]
    | some y =>
      cases y with
      | phrase p => simp [ih, finished, comes]
      | token t =>
        simp only [TokenSet.has_union, TokenSet.has_single, Bool.or_eq_true, ih]
        simp [finished, comes, or_right_comm]

theorem possible_settleShift {done : List Item} (some : done ≠ []) :
    (f.settleShift its done token).possible = true := by
  have reduces : (done.map (·.production)).isEmpty = false := by simpa using some
  unfold Facts.settleShift
  dsimp only
  repeat' split
  all_goals simp [Action.possible, reduces]

/-- An action is possible just at the possible tokens. -/
theorem possible_action : (f.action its token).possible = (possibleTokens its).has token := by
  rw [Bool.eq_iff_iff, has_possibleTokens, Ne, ← strongest_eq_nil_iff]
  unfold Facts.action
  dsimp only
  split
  · next both =>
    simp only [Bool.and_eq_true, List.any_eq_true, decide_eq_true_eq, Bool.not_eq_true',
      List.isEmpty_eq_false_iff] at both
    exact iff_of_true (possible_settleShift both.2) (Or.inl both.1)
  · simp [Action.possible]

theorem action_eq_refuse (h : (possibleTokens its).has token = false) :
    f.action its token = .refuse := by
  rw [← possible_action (f := f)] at h
  cases action : f.action its token with
  | mk reduce shift =>
    rw [action] at h
    simp only [Action.possible, Bool.or_eq_false_iff, Bool.not_eq_eq_eq_not, Bool.not_false,
      List.isEmpty_iff] at h
    rw [h.1, h.2]
    rfl

/-- What is reduced is the production of an item that is read to its end. -/
theorem mem_reduce_action {p : Production} (h : p ∈ (f.action its token).reduce) :
    ∃ i ∈ its, i.next? = none ∧ i.followers.has token = true ∧ i.production = p := by
  have among : p ∈ (strongest (finished its token)).map (·.production) := by
    revert h
    unfold Facts.action Facts.settleShift
    dsimp only
    repeat' split
    all_goals simp
  obtain ⟨i, best, rfl⟩ := List.mem_map.1 among
  obtain ⟨inside, done⟩ := List.mem_filter.1 (mem_of_mem_strongest best)
  simp only [Bool.and_eq_true, Option.isNone_iff_eq_none] at done
  exact ⟨i, inside, done.1, done.2, rfl⟩

/-- What is shifted comes next in an item. -/
theorem exists_of_shift_action (h : (f.action its token).shift = true) :
    ∃ i ∈ its, i.next? = some (.token token) := by
  unfold Facts.action at h
  dsimp only at h
  split at h
  · next both =>
    simpa using (Bool.and_eq_true_iff.1 both).1
  · simpa using h

/-! ## Numbering kernels -/

namespace Table

/-- A number, or its absence, stands for a kernel: no number is needed for the empty one. -/
def Denotes (kernels : Array Kernel) (n : Option Nat) (k : Kernel) : Prop :=
  match n with
  | none => k = []
  | some i => k ≠ [] ∧ kernels[i]? = some k

/-- A table in which every kernel of another one keeps its number. -/
structure Extends (t u : Table) : Prop where
  facts : u.facts = t.facts
  rows : u.rows = t.rows
  kernels : ∀ (i : Nat) (k : Kernel), t.kernels[i]? = some k → u.kernels[i]? = some k

theorem Extends.refl (t : Table) : Extends t t := ⟨rfl, rfl, fun _ _ h => h⟩

theorem Extends.trans {t u v : Table} (first : Extends t u) (second : Extends u v) : Extends t v where
  facts := second.facts.trans first.facts
  rows := second.rows.trans first.rows
  kernels i k h := second.kernels i k (first.kernels i k h)

theorem Denotes.mono {kernels kernels' : Array Kernel} {n : Option Nat}
    (grows : ∀ (i : Nat) (k : Kernel), kernels[i]? = some k → kernels'[i]? = some k)
    (h : Denotes kernels n k) : Denotes kernels' n k := by
  cases n with
  | none => exact h
  | some i => exact ⟨h.1, grows i k h.2⟩

/-- The index tells numbers rightly, and all kernels are known. -/
structure Indexed (t : Table) : Prop where
  index : ∀ (k : Kernel) (i : Nat), t.index[k]? = some i → t.kernels[i]? = some k
  known : ∀ (i : Nat) (k : Kernel), t.kernels[i]? = some k → t.facts.Known k

theorem number_spec (indexed : t.Indexed) (known : t.facts.Known k) :
    Extends t (t.number k).2 ∧ (t.number k).2.Indexed ∧
      (t.number k).2.kernels[(t.number k).1]? = some k := by
  unfold number
  cases found : t.index[k]? with
  | some i => exact ⟨.refl t, indexed, indexed.index k i found⟩
  | none =>
    have last : (t.kernels.push k)[t.kernels.size]? = some k := by simp
    have grows : ∀ (i : Nat) (k' : Kernel), t.kernels[i]? = some k' → (t.kernels.push k)[i]? = some k' := by
      intro i k' at_
      have fits : i < t.kernels.size := (Array.getElem?_eq_some_iff.1 at_).1
      rw [Array.getElem?_push, if_neg (by omega), at_]
    refine ⟨⟨rfl, rfl, grows⟩, ⟨?_, ?_⟩, last⟩
    · intro k' i at_
      rw [Std.HashMap.getElem?_insert] at at_
      split at at_
      · next same =>
        rw [← Option.some.inj at_, ← eq_of_beq same]
        exact last
      · exact grows i k' (indexed.index k' i at_)
    · intro i k' at_
      rw [Array.getElem?_push] at at_
      split at at_
      · rw [← Option.some.inj at_]
        exact known
      · exact indexed.known i k' at_

/-- Numbering several kernels answers with a number for each and adds it to what was found. -/
theorem numberAll_spec (ks : List Kernel) :
    ∀ (t : Table) (found : Array (Option Nat)), t.Indexed → (∀ k ∈ ks, t.facts.Known k) →
      Extends t (t.numberAll ks found).2 ∧ (t.numberAll ks found).2.Indexed ∧
        (∀ j, j < found.size → (t.numberAll ks found).1[j]? = found[j]?) ∧
        ∀ (j : Nat) (k : Kernel), ks[j]? = some k → ∃ n, (t.numberAll ks found).1[found.size + j]? = some n ∧
          Denotes (t.numberAll ks found).2.kernels n k := by
  induction ks with
  | nil => exact fun t found indexed _ => ⟨.refl t, indexed, fun _ _ => rfl, fun _ _ h => by simp at h⟩
  | cons k rest ih =>
    intro t found indexed known
    -- the table and the answer for the first kernel
    obtain ⟨u, n, first, extends_, indexed', denotes⟩ : ∃ u n,
        t.numberAll (k :: rest) found = u.numberAll rest (found.push n) ∧ Extends t u ∧
          u.Indexed ∧ Denotes u.kernels n k := by
      cases k with
      | nil => exact ⟨t, none, rfl, .refl t, indexed, rfl⟩
      | cons i items =>
        obtain ⟨extends_, indexed', at_⟩ := number_spec indexed (known _ List.mem_cons_self)
        exact ⟨(t.number (i :: items)).2, some (t.number (i :: items)).1, rfl, extends_, indexed',
          List.cons_ne_nil _ _, at_⟩
    have later : ∀ k ∈ rest, u.facts.Known k := fun k' inside =>
      extends_.facts ▸ known k' (List.mem_cons_of_mem _ inside)
    obtain ⟨extends', indexed'', kept, answers⟩ := ih u (found.push n) indexed' later
    rw [first]
    refine ⟨extends_.trans extends', indexed'', ?_, ?_⟩
    · intro j fits
      rw [kept j (by simp only [Array.size_push]; omega), Array.getElem?_push, if_neg (by omega)]
    · intro j k' at_
      cases j with
      | zero =>
        rw [List.getElem?_cons_zero, Option.some.injEq] at at_
        have fits : found.size < (found.push n).size := by simp only [Array.size_push]; omega
        refine ⟨n, ?_, at_ ▸ denotes.mono extends'.kernels⟩
        rw [Nat.add_zero, kept _ fits]
        simp
      | succ j =>
        rw [List.getElem?_cons_succ] at at_
        obtain ⟨m, found', denotes'⟩ := answers j k' at_
        refine ⟨m, ?_, denotes'⟩
        rw [← found', Array.size_push, Nat.add_right_comm, Nat.add_assoc]

/-! ## Rows -/

/-- A row tells of a kernel's state all that a parser asks. -/
structure Describes (f : Facts) (kernels : Array Kernel) (row : Row) (k : Kernel) : Prop where
  actions : ∀ token, token < f.grammar.tokens →
    row.actions.get.getD token .refuse = f.action (f.items k) token
  successors : ∀ x, f.grammar.IsSymbol x →
    Denotes kernels (row.successors.getD (f.grammar.position x) none) (advance (f.items k) x)

/-- The table tells the truth about the kernels of a grammar. -/
structure Sound (f : Facts) (t : Table) : Prop where
  facts : t.facts = f
  indexed : t.Indexed
  start : t.kernels[0]? = some f.start
  rows : ∀ (i : Nat) (row : Row), t.rows[i]? = some row → ∃ k, t.kernels[i]? = some k ∧ Describes f t.kernels row k

theorem empty_sound (f : Facts) : Sound f (empty f) where
  facts := rfl
  start := rfl
  rows i row at_ := by simp [empty] at at_
  indexed := by
    constructor
    · intro k i at_
      have single : (empty f).index = (∅ : Std.HashMap Kernel Nat).insert f.start 0 := rfl
      rw [single, Std.HashMap.getElem?_insert] at at_
      split at at_
      · next same =>
        rw [← Option.some.inj at_, ← eq_of_beq same]
        rfl
      · simp at at_
    · intro i k at_
      have inside : k ∈ [f.start] := List.mem_of_getElem? (by simpa [empty] using at_)
      rw [List.mem_singleton.1 inside]
      exact .start f

theorem Describes.mono {kernels kernels' : Array Kernel} {row : Row}
    (grows : ∀ (i : Nat) (k : Kernel), kernels[i]? = some k → kernels'[i]? = some k)
    (h : Describes f kernels row k) : Describes f kernels' row k where
  actions := h.actions
  successors x hx := (h.successors x hx).mono grows

/-- The successors of a state are made of its items, with the dot moved on. -/
theorem known_successorKernels (known : f.Known its) :
    ∀ k ∈ (f.grammar.successorKernels its).toList, f.Known k := by
  induction its with
  | nil =>
    intro k inside i
    simp only [successorKernels, List.foldr_nil, Array.toList_replicate, List.mem_replicate] at inside
    simp [inside.2]
  | cons i rest ih =>
    intro k inside
    have later := ih fun j inRest => known j (List.mem_cons_of_mem _ inRest)
    rw [successorKernels_cons] at inside
    split at inside
    · obtain ⟨j, at_⟩ := List.mem_iff_getElem?.1 inside
      rw [Array.getElem?_toList, Array.getElem?_modify, ← Array.getElem?_toList] at at_
      split at at_
      · obtain ⟨old, was, rfl⟩ := Option.map_eq_some_iff.1 at_
        rintro i' (_ | ⟨_, inOld⟩)
        · exact known i List.mem_cons_self
        · exact later old (List.mem_of_getElem? was) i' inOld
      · exact later k (List.mem_of_getElem? at_)
    · exact later k inside

theorem extend_sound (closed : f.grammar.Closed) (sound : Sound f t)
    (at_ : t.kernels[t.rows.size]? = some k) : Sound f (t.extend k) := by
  obtain ⟨rfl, indexed, start, rows⟩ := sound
  have known := indexed.known _ _ at_
  obtain ⟨extends_, indexed', -, answers⟩ := numberAll_spec
    (t.facts.grammar.successorKernels (t.facts.items k)).toList t #[] indexed
    (known_successorKernels known.items)
  refine ⟨extends_.facts, ⟨indexed'.index, indexed'.known⟩, extends_.kernels _ _ start, ?_⟩
  intro i row found
  have last : (t.extend k).rows = ((t.numberAll
      (t.facts.grammar.successorKernels (t.facts.items k)).toList #[]).2.rows).push _ := rfl
  rw [last, Array.getElem?_push, extends_.rows] at found
  split at found
  · next new =>
    refine ⟨k, extends_.kernels _ _ (new ▸ at_), ?_⟩
    rw [← Option.some.inj found]
    constructor
    · intro token fits
      simp only [Thunk.get, Array.getD_eq_getD_getElem?, List.getElem?_toArray, List.getElem?_map,
        List.getElem?_range fits, Option.map_some, Option.getD_some]
      split
      · rfl
      · next impossible => exact (action_eq_refuse (by simpa using impossible)).symm
    · intro x hx
      have leads := getElem?_successorKernels hx fun i inside y comes =>
        known.items.isSymbol closed inside comes
      rw [← Array.getElem?_toList] at leads
      obtain ⟨n, answer, denotes⟩ := answers _ _ leads
      rw [Array.size_empty, Nat.zero_add] at answer
      rw [Array.getD_eq_getD_getElem?, answer]
      exact denotes
  · obtain ⟨k', at', describes⟩ := rows i row found
    exact ⟨k', extends_.kernels _ _ at', describes.mono extends_.kernels⟩

theorem explore_sound (closed : f.grammar.Closed) (fuel : Nat) (sound : Sound f t) :
    Sound f (explore fuel t) := by
  induction fuel generalizing t with
  | zero => exact sound
  | succ fuel ih =>
    unfold explore
    split
    · exact sound
    · next k at_ => exact ih (extend_sound closed sound at_)

theorem build_sound (closed : f.grammar.Closed) (limit : Nat) : Sound f (build f limit) :=
  explore_sound closed limit (empty_sound f)

end Table

theorem kernelOf_listed {i : Nat} (at_ : t.kernels[i]? = some k) : t.kernelOf (.listed i) = k := by
  simp [Table.kernelOf, at_]

/-! ## Two automata with the same answers -/

/-- The first automaton answers as the second one does from the state that it is seen as, as
far as the symbols of a grammar go. -/
structure Mirrors {σ τ : Type} (g : Grammar) (a : Automaton σ) (b : Automaton τ) (view : σ → τ) :
    Prop where
  start : view a.start = b.start
  action : ∀ s token, token < g.tokens → a.action s token = b.action (view s) token
  next : ∀ s x, g.IsSymbol x → (a.next s x).map view = b.next (view s) x
  whole : a.whole = b.whole

/-- A number that stands for what a symbol leads to stands for the next kernel. -/
theorem next_of_denotes {n : Option Nat} {x : Symbol}
    (denotes : Table.Denotes t.kernels n (advance (f.items k) x)) :
    (n.map Table.State.listed).map t.kernelOf = f.next k x := by
  cases n with
  | none =>
    rw [Facts.next, show advance (f.items k) x = [] from denotes]
    rfl
  | some j =>
    obtain ⟨some, at_⟩ := denotes
    rw [Facts.next, Option.map_some, Option.map_some, kernelOf_listed at_]
    split
    · next none => exact absurd none some
    · rfl

/-- A row that is looked up tells of the kernel of its state. -/
theorem Table.Sound.row (sound : Sound f t) {s : State} {row : Row} (found : t.rowOf? s = some row) :
    Describes f t.kernels row (t.kernelOf s) := by
  cases s with
  | unlisted k => cases found
  | listed i =>
    obtain ⟨k, at_, describes⟩ := sound.rows i row found
    rw [kernelOf_listed at_]
    exact describes

theorem Table.Sound.mirrors (sound : Sound f t) :
    Mirrors f.grammar t.automaton f.automaton t.kernelOf := by
  obtain rfl := sound.facts
  constructor
  case start => exact kernelOf_listed sound.start
  case whole => rfl
  case action =>
    intro s token fits
    simp only [automaton]
    cases found : t.rowOf? s with
    | none => rfl
    | some row => exact (sound.row found).actions token fits
  case next =>
    intro s x hx
    simp only [automaton]
    cases found : t.rowOf? s with
    | none =>
      rw [Option.map_map]
      exact Option.map_id'
    | some row => exact next_of_denotes ((sound.row found).successors x hx)

/-- The automaton of a table answers as the automaton of kernels. -/
theorem build_mirrors (closed : f.grammar.Closed) (limit : Nat) :
    Mirrors f.grammar (Table.build f limit).automaton f.automaton (Table.build f limit).kernelOf :=
  (Table.build_sound closed limit).mirrors

end DefTally.Grammar
