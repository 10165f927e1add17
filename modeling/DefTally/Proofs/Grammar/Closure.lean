import DefTally.Proofs.Grammar.Table

/-!
# The items that matter

A state has its kernel and the items of all phrases that may begin next, which are many. For one
symbol only those phrases matter in which some production begins with it or has no body:
`Facts.itemsAt` leaves the others out, and `action_itemsAt` and `advance_itemsAt` say that nothing
is lost.
-/

namespace DefTally.Grammar

/-- Where the symbol that a production begins with has its bit; a production without a body has
one after all symbols. -/
def headPosition (g : Grammar) (p : Production) : Nat :=
  match p.body with
  | [] => g.symbolCount
  | step :: _ => g.position step.symbol

/-- The bits of the symbols that productions begin with. -/
def headsOf (g : Grammar) (productions : List Production) : Nat :=
  productions.foldl (fun bits p => bits ||| 1 <<< g.headPosition p) 0

/-- Some production begins with the symbol at a position, or is without a body. -/
def concerns (g : Grammar) (position heads : Nat) : Bool :=
  heads.testBit position || heads.testBit g.symbolCount

/-- The production begins with the symbol at a position, or is without a body. -/
def fits (g : Grammar) (position : Nat) (p : Production) : Bool :=
  g.headPosition p == position || g.headPosition p == g.symbolCount

/-- The phrases that the symbol at a position concerns, with the productions that it fits. -/
def chosen (g : Grammar) (position : Nat) : List (List Production × Nat) :=
  ((g.productions.toList.zipIdx.map fun entry => (entry, g.headsOf entry.1)).filter
    fun e => g.concerns position e.2).map fun e => (e.1.1.filter (g.fits position), e.1.2)

/-- The phrases that the symbol at a position concerns. The position is worked out first, so that
the kernel finds what it has chosen for the position before. -/
def concerned (g : Grammar) : Nat → List (List Production × Nat)
  | 0 => g.chosen 0
  | n + 1 => g.chosen (n + 1)

theorem concerned_eq (g : Grammar) (position : Nat) : g.concerned position = g.chosen position := by
  cases position <;> rfl

namespace Facts

variable (f : Facts)

/-- The tokens that may follow a phrase where another one begins, as far as that one tells. -/
def followersIn (p q : Nat) : TokenSet :=
  TokenTable.row f.grammar.setWidth (f.grammar.spreadFrom (f.grammar.leads f.starters) p) q

/-- The followers of one phrase that may begin at the dot of a kernel item. -/
def followersOf (k : Kernel) (q : Nat) : TokenSet :=
  k.foldl (fun s i => match i.next? with
    | some (.phrase p) => f.blend (f.followersOfNext i) s (f.followersIn p q)
    | _ => s) 0

/-- The items of a phrase that may begin next; none if it may not. -/
def begun (k : Kernel) (entry : List Production × Nat) : List Item :=
  let s := f.followersOf k entry.2
  if s = 0 then [] else entry.1.map (⟨·, 0, s⟩)

/-- The items of a state that matter for the symbol at a position. -/
def itemsAt (k : Kernel) (position : Nat) : List Item :=
  k ++ (f.grammar.concerned position).flatMap (f.begun k)

/-- The followers of phrases are those that the grammar spreads. -/
def Spread (f : Facts) : Prop := f.spread = f.grammar.spread f.starters

theorem spread_ofGrammar (g : Grammar) : (Facts.ofGrammar g).Spread := rfl

theorem Spread.getD {f : Facts} (spreads : f.Spread) {p : Nat}
    (less : p < f.grammar.productions.size) :
    f.spread.getD p [] = f.grammar.phrases.map (f.followersIn p) := by
  have spreads : f.spread = f.grammar.spread f.starters := spreads
  rw [spreads]
  simp [Grammar.spread, phrases, rows, less, followersIn]

end Facts

variable {g : Grammar} {f : Facts} {k : Kernel} {x : Symbol} {its : List Item} {token : Nat}

/-! ## The followers of a phrase -/

/-- The followers of all phrases are those of each one. -/
theorem followers_eq (closed : f.grammar.Closed) (spreads : f.Spread) (known : f.Known k) :
    f.followers k = f.grammar.phrases.map (f.followersOf k) := by
  have all : ∀ (k : Kernel) (s : Nat → TokenSet), f.Known k →
      k.foldl (fun sets i => match i.next? with
        | some (.phrase p) => List.zipWith (f.blend (f.followersOfNext i)) sets (f.spread.getD p [])
        | _ => sets) (f.grammar.phrases.map s) =
      f.grammar.phrases.map fun q => k.foldl (fun s i => match i.next? with
        | some (.phrase p) => f.blend (f.followersOfNext i) s (f.followersIn p q)
        | _ => s) (s q) := by
    intro k
    induction k with
    | nil => exact fun _ _ => rfl
    | cons i rest ih =>
      intro s known
      have later : f.Known rest := fun j inside => known j (List.mem_cons_of_mem _ inside)
      simp only [List.foldl_cons]
      cases comes : i.next? with
      | none => exact ih s later
      | some x =>
        cases x with
        | token t => exact ih s later
        | phrase p =>
          have symbol : p < f.grammar.productions.size := known.isSymbol closed List.mem_cons_self comes
          dsimp only
          rw [spreads.getD symbol, List.zipWith_map, List.zipWith_self]
          exact ih _ later
  have start : List.replicate f.grammar.productions.size (0 : TokenSet) =
      f.grammar.phrases.map fun _ => 0 := by
    simp [phrases, List.map_const']
  rw [Facts.followers, start]
  exact all k _ known

/-- The items of a state, phrase by phrase. -/
theorem items_eq (closed : f.grammar.Closed) (spreads : f.Spread) (known : f.Known k) :
    f.items k = k ++ f.grammar.productions.toList.zipIdx.flatMap (f.begun k) := by
  have paired : f.grammar.productions.toList.zip (f.followers k) =
      f.grammar.productions.toList.zipIdx.map fun entry => (entry.1, f.followersOf k entry.2) := by
    rw [followers_eq closed spreads known, phrases, List.zip_map_right, List.zipIdx_eq_zip_range',
      Array.length_toList, ← List.range_eq_range']
    rfl
  rw [Facts.items, paired, List.flatMap_map]
  rfl

/-! ## What can be left out -/

theorem testBit_headsOf (productions : List Production) (i : Nat) :
    (g.headsOf productions).testBit i = productions.any fun p => g.headPosition p = i := by
  have all : ∀ (productions : List Production) (bits : Nat),
      (productions.foldl (fun bits p => bits ||| 1 <<< g.headPosition p) bits).testBit i =
        (bits.testBit i || productions.any fun p => g.headPosition p = i) := by
    intro productions
    induction productions with
    | nil => simp
    | cons p rest ih =>
      intro bits
      rw [List.foldl_cons, ih]
      simp [Nat.one_shiftLeft, Nat.testBit_two_pow, Bool.or_assoc]
  rw [headsOf, all]
  simp

theorem begun_nil (k : Kernel) (q : Nat) : f.begun k ([], q) = [] := by
  unfold Facts.begun
  dsimp only
  split <;> rfl

/-- A selection of the items of a phrase loses nothing if it takes none of a production left out. -/
theorem begun_filter {entry : List Production × Nat} {keep : Production → Bool}
    {select : Item → Bool}
    (drops : ∀ p ∈ entry.1, keep p = false → ∀ s, select ⟨p, 0, s⟩ = false) :
    (f.begun k entry).filter select = (f.begun k (entry.1.filter keep, entry.2)).filter select := by
  obtain ⟨productions, q⟩ := entry
  unfold Facts.begun
  dsimp only
  generalize f.followersOf k q = s at *
  split
  · rfl
  · induction productions with
    | nil => rfl
    | cons p rest ih =>
      have later := ih fun p inside => drops p (List.mem_cons_of_mem _ inside)
      rw [List.map_cons, List.filter_cons, later, List.filter_cons]
      cases kept : keep p with
      | true => simp [List.filter_cons]
      | false => simp [drops p List.mem_cons_self kept]

/-- A selection of items loses nothing if it takes none that the symbol does not concern. -/
theorem filter_itemsAt (closed : f.grammar.Closed) (spreads : f.Spread) (known : f.Known k)
    {position : Nat} {select : Item → Bool}
    (drops : ∀ p ∈ f.grammar.allProductions, f.grammar.headPosition p ≠ position →
      f.grammar.headPosition p ≠ f.grammar.symbolCount → ∀ s, select ⟨p, 0, s⟩ = false) :
    (f.items k).filter select = (f.itemsAt k position).filter select := by
  rw [items_eq closed spreads known, Facts.itemsAt, concerned_eq, chosen, List.filter_append,
    List.filter_append]
  congr 1
  have inside : ∀ entry ∈ f.grammar.productions.toList.zipIdx,
      ∀ p ∈ entry.1, p ∈ f.grammar.allProductions := by
    intro entry among p isProduction
    exact List.mem_flatten.2 ⟨_, List.fst_mem_of_mem_zipIdx among, isProduction⟩
  generalize f.grammar.productions.toList.zipIdx = entries at inside
  induction entries with
  | nil => rfl
  | cons entry rest ih =>
    have later := ih fun e among => inside e (List.mem_cons_of_mem _ among)
    have unfit : ∀ p ∈ entry.1, f.grammar.fits position p = false → ∀ s, select ⟨p, 0, s⟩ = false := by
      intro p isProduction misfit
      simp only [fits, Bool.or_eq_false_iff, beq_eq_false_iff_ne] at misfit
      exact drops p (inside entry List.mem_cons_self p isProduction) misfit.1 misfit.2
    rw [List.flatMap_cons, List.filter_append, later, begun_filter unfit, List.map_cons,
      List.filter_cons]
    by_cases near : f.grammar.concerns position (f.grammar.headsOf entry.1) = true
    · rw [if_pos near, List.map_cons, List.flatMap_cons, List.filter_append]
    · have none : entry.1.filter (f.grammar.fits position) = [] := by
        rw [List.filter_eq_nil_iff]
        intro p isProduction
        simp only [concerns, testBit_headsOf, Bool.or_eq_true, List.any_eq_true,
          decide_eq_true_eq, not_or, not_exists, not_and] at near
        simp [fits, near.1 p isProduction, near.2 p isProduction]
      rw [if_neg near, none, begun_nil, List.filter_nil, List.nil_append]

/-- An item at the start of a production has the production's first symbol next. -/
theorem next?_start (p : Production) (s : TokenSet) :
    (Item.mk p 0 s).next? = p.body.head?.map Step.symbol := by
  cases p with
  | mk head body => cases body <;> rfl

theorem next?_start_ne (closed : g.Closed) {p : Production} (isProduction : p ∈ g.allProductions)
    (hx : g.IsSymbol x) (away : g.headPosition p ≠ g.position x) (s : TokenSet) :
    (Item.mk p 0 s).next? ≠ some x := by
  rw [next?_start]
  cases body : p.body with
  | nil => simp
  | cons step rest =>
    intro same
    have inBody : step ∈ p.body := body ▸ List.mem_cons_self
    have symbol := closed.steps p isProduction step inBody
    simp only [headPosition, body] at away
    simp only [List.head?_cons, Option.map_some, Option.some.injEq] at same
    exact away ((position_inj symbol hx).2 same)

theorem advance_eq (its : List Item) (x : Symbol) :
    advance its x = (its.filter (·.next? = some x)).map fun i => { i with dot := i.dot + 1 } := by
  induction its with
  | nil => rfl
  | cons i rest ih =>
    rw [advance_cons, ih, List.filter_cons, Item.past]
    by_cases comes : i.next? = some x <;> simp [comes]

/-- The kernel that a symbol leads to is found among the items that it concerns. -/
theorem advance_itemsAt (closed : f.grammar.Closed) (spreads : f.Spread) (known : f.Known k)
    (hx : f.grammar.IsSymbol x) :
    advance (f.items k) x = advance (f.itemsAt k (f.grammar.position x)) x := by
  rw [advance_eq, advance_eq, filter_itemsAt closed spreads known]
  intro p isProduction away _ s
  simpa using next?_start_ne closed isProduction hx away s

theorem any_of_filter {its' : List Item} {select : Item → Bool}
    (same : its.filter select = its'.filter select) (h : its.any select = true) :
    its'.any select = true := by
  obtain ⟨i, inside, selected⟩ := List.any_eq_true.1 h
  have among : i ∈ its.filter select := List.mem_filter.2 ⟨inside, selected⟩
  rw [same] at among
  exact List.any_eq_true.2 ⟨i, (List.mem_filter.1 among).1, selected⟩

theorem action_congr {its' : List Item}
    (shifts : its.filter (fun i => i.next? = some (.token token)) =
      its'.filter fun i => i.next? = some (.token token))
    (done : finished its token = finished its' token)
    (opened : f.continuing its token = f.continuing its' token) :
    f.action its token = f.action its' token := by
  have shift : (its.any fun i => i.next? = some (.token token)) =
      its'.any fun i => i.next? = some (.token token) :=
    Bool.eq_iff_iff.2 ⟨any_of_filter shifts, any_of_filter shifts.symm⟩
  simp only [Facts.action, Facts.settleShift, shift, done, opened]

/-- What to do at a token is found among the items that it concerns. -/
theorem action_itemsAt (closed : f.grammar.Closed) (spreads : f.Spread) (known : f.Known k)
    (fits : token < f.grammar.tokens) :
    f.action (f.items k) token = f.action (f.itemsAt k token) token := by
  apply action_congr
  · apply filter_itemsAt closed spreads known
    intro p isProduction away _ s
    have symbol : f.grammar.IsSymbol (.token token) := fits
    simpa using next?_start_ne closed isProduction symbol away s
  · apply filter_itemsAt closed spreads known
    intro p isProduction _ full s
    cases body : p.body with
    | nil => simp [headPosition, body] at full
    | cons step rest => simp [next?_start, body]
  · apply filter_itemsAt closed spreads known
    intro p isProduction _ _ s
    rfl

end DefTally.Grammar
