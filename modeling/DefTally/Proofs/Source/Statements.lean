import DefTally.Proofs.Source.Nesting

/-!
# Statements and their tokens

The tree walk behind `countDefinitions` counts what can be read off the tokens of the tree: it
finds as many statements to count as there are plain definitions among the tokens
(`Derived.countDefinitions_eq`). Statements come one after the other where no block is open, each
begins on a line of its own (`AtStatement`), and each that is counted holds one plain definition.
-/

namespace DefTally.Source

open DefTally.Grammar

variable {tree : Tree} {p : Production} {children : List Tree} {x : Symbol} {before : List Token}

/-- A statement of the module may begin after the tokens. -/
structure AtStatement (before : List Token) : Prop where
  outside : depthAfter before = 0
  free : before.getLast? ≠ some .kwAsync

theorem atStatement_nil : AtStatement [] := ⟨rfl, by simp⟩

/-- The next statement may begin after a whole line outside blocks. -/
theorem AtStatement.after (at_ : AtStatement before) (h : syntaxGrammar.Derived tree)
    (ends : endsLine tree.symbol = true) (level : turn tree.symbol = 0) :
    AtStatement (before ++ tokensOf tree) := by
  constructor
  · rw [depthAfter_append, at_.outside, (Derived.nested h).turn, level]
    rfl
  · obtain ⟨init, t, tokens, other⟩ := Derived.ends h ends
    rw [tokens, ← List.append_assoc, List.getLast?_concat]
    simpa using other

theorem isPlainAfter_def (at_ : AtStatement before) : isPlainAfter before .kwDef = true := by
  simp [isPlainAfter, at_.outside, at_.free]

/-! ## One definition -/

/-- The definition of a coroutine outside blocks defines no function. -/
theorem definitions_of_coroutine {c d : Tree} {rest : List Tree}
    (isAsync : c.symbol = .token Token.kwAsync.number)
    (isDef : d.symbol = .token Token.kwDef.number) (nested : ∀ c' ∈ rest, Nested c')
    (still : calm 0 (rest.map Tree.symbol) = some 0) (at_ : AtStatement before) :
    definitionsFrom before (tokensOfAll (c :: d :: rest)) = 0 := by
  have level : 0 ≤ depthAfter (before ++ [.kwAsync] ++ [.kwDef]) := by
    rw [depthAfter_append, depthAfter_append, at_.outside]
    decide
  have none := (calm_spec nested (Int.le_refl 0) still).2
  rw [tokensOfAll_cons, tokensOfAll_cons, tokensOf_of_symbol isAsync, tokensOf_of_symbol isDef,
    definitionsFrom_append, definitionsFrom_append, none _ level]
  simp [definitionsFrom_single, isPlainAfter]

/-- What begins with `def` outside blocks defines one function there. -/
theorem definitions_of_def {c : Tree} {rest : List Tree}
    (isDef : c.symbol = .token Token.kwDef.number) (nested : ∀ c' ∈ rest, Nested c')
    (still : calm 0 (rest.map Tree.symbol) = some 0) (at_ : AtStatement before) :
    definitionsFrom before (tokensOfAll (c :: rest)) = 1 := by
  have level : 0 ≤ depthAfter (before ++ [.kwDef]) := by
    rw [depthAfter_append, at_.outside]
    decide
  have none := (calm_spec nested (Int.le_refl 0) still).2
  rw [tokensOfAll_cons, tokensOf_of_symbol isDef, definitionsFrom_append, none _ level,
    definitionsFrom_single, isPlainAfter_def at_]
  rfl

/-- A function definition outside blocks defines one function, unless it is a coroutine. -/
theorem definitions_of_function (h : syntaxGrammar.Derived tree)
    (isFunction : tree.symbol = .phrase Phrase.functionDefinition.number) (at_ : AtStatement before) :
    definitionsFrom before (tokensOf tree) = if isPlainDefinition tree then 1 else 0 := by
  cases h with
  | leaf fits => cases isFunction
  | node production symbols parts =>
    next p children =>
    have nested : ∀ c ∈ children, Nested c := fun c inside => Derived.nested (parts c inside)
    have plain : isPlainDefinition (.node p children) =
        !children.any fun c => c.symbol = .token Token.kwAsync.number := by
      simp [isPlainDefinition, isPhrase, isFunction, Source.children]
    have shape := syntaxGrammar_shaped p production
    have head : p.head = Phrase.functionDefinition.number := Symbol.phrase.inj isFunction
    simp only [shaped, definesRightly, symbolsOf_eq symbols, head, Bool.and_eq_true,
      bne_self_eq_false, Bool.false_or] at shape
    obtain ⟨⟨⟨-, defines⟩, -⟩, -⟩ := shape
    rw [tokensOf_node, plain]
    rcases children with - | ⟨c, - | ⟨d, rest⟩⟩
    · simp at defines
    · simp at defines
    · simp only [List.map_cons] at defines
      split at defines
      · next isAsync =>
        simp only [Bool.and_eq_true, decide_eq_true_eq, beq_iff_eq] at defines
        obtain ⟨isDef, still⟩ := defines
        have inner : ∀ c' ∈ rest, Nested c' := fun c' inside => nested c' (by simp [inside])
        rw [definitions_of_coroutine isAsync isDef inner still at_]
        simp [isAsync]
      · next notAsync =>
        simp only [Bool.and_eq_true, decide_eq_true_eq, beq_iff_eq, Bool.not_eq_true'] at defines
        obtain ⟨⟨isDef, still⟩, noAsync⟩ := defines
        have inner : ∀ c' ∈ d :: rest, Nested c' := fun c' inside =>
          nested c' (List.mem_cons_of_mem _ inside)
        have others : ∀ c' ∈ d :: rest, c'.symbol ≠ .token Token.kwAsync.number := by
          intro c' inside same
          have found : (.token Token.kwAsync.number) ∈ (d :: rest).map Tree.symbol :=
            same ▸ List.mem_map_of_mem inside
          rw [List.map_cons] at found
          simp [found] at noAsync
        have allPlain : (c :: d :: rest).any (fun c' => c'.symbol = .token Token.kwAsync.number) =
            false := by
          simpa [notAsync] using others
        rw [definitions_of_def isDef inner still at_, allPlain]
        rfl

theorem isPlainDefinition_of_quiet (still : quiet tree.symbol = true) :
    isPlainDefinition tree = false := by
  have other : tree.symbol ≠ .phrase Phrase.functionDefinition.number := by
    intro same
    rw [same] at still
    revert still
    decide +kernel
  simp [isPlainDefinition, isPhrase, other]

theorem isCounted_of_quiet (still : quiet tree.symbol = true) : isCounted tree = false := by
  have other : tree.symbol ≠ .phrase Phrase.decoratedDefinition.number := by
    intro same
    rw [same] at still
    revert still
    decide +kernel
  simp [isCounted, isPhrase, other, isPlainDefinition_of_quiet still]

/-- Decorators do not hide a definition. -/
theorem definitions_of_decorated (h : syntaxGrammar.Derived tree)
    (isDecorated : tree.symbol = .phrase Phrase.decoratedDefinition.number)
    (at_ : AtStatement before) :
    definitionsFrom before (tokensOf tree) = if isCounted tree then 1 else 0 := by
  cases h with
  | leaf fits => cases isDecorated
  | node production symbols parts =>
    next p children =>
    have shape := syntaxGrammar_shaped p production
    have head : p.head = Phrase.decoratedDefinition.number := Symbol.phrase.inj isDecorated
    simp only [shaped, decoratesRightly, symbolsOf_eq symbols, head, Bool.and_eq_true,
      bne_self_eq_false, Bool.false_or] at shape
    obtain ⟨⟨-, decorates⟩, -⟩ := shape
    rw [tokensOf_node]
    rcases children with - | ⟨c, - | ⟨d, - | ⟨e, rest⟩⟩⟩
    · simp at decorates
    · simp at decorates
    · simp only [List.map_cons, List.map_nil, Bool.and_eq_true, beq_iff_eq, Bool.or_eq_true,
        decide_eq_true_eq] at decorates
      obtain ⟨⟨⟨still, level⟩, ends⟩, defined⟩ := decorates
      have decorator := parts c (by simp)
      have definition := parts d (by simp)
      have at' := at_.after decorator ends level
      have counted : isCounted (.node p [c, d]) = isPlainDefinition d := by
        have other : isPlainDefinition (.node p [c, d]) = false := by
          simp only [isPlainDefinition, isPhrase, isDecorated]
          rfl
        simp [isCounted, other, isPhrase, isDecorated, Source.children, isPlainDefinition_of_quiet still]
      have first : definitionsFrom before (tokensOf c) = 0 :=
        (Derived.nested decorator).outside still before (Int.le_of_eq at_.outside.symm)
      have second : definitionsFrom (before ++ tokensOf c) (tokensOf d) =
          if isPlainDefinition d then 1 else 0 := by
        rcases defined with isFunction | still
        · exact definitions_of_function definition isFunction at'
        · rw [isPlainDefinition_of_quiet still]
          exact (Derived.nested definition).outside still _ (Int.le_of_eq at'.outside.symm)
      rw [tokensOfAll_cons, tokensOfAll_cons, tokensOfAll_nil, List.append_nil,
        definitionsFrom_append, first, second, counted, Nat.zero_add]
    · simp at decorates

/-! ## Statements in a row -/

/-- The tokens of a tree, read where a statement may begin, define what its statements count for,
and a statement may begin after them. -/
structure Held (tree : Tree) : Prop where
  after : ∀ before, AtStatement before → AtStatement (before ++ tokensOf tree)
  definitions : ∀ before, AtStatement before →
    definitionsFrom before (tokensOf tree) = (tree.within holdsStatements).countP isCounted

/-- Trees in a row count for what each of them counts for. -/
theorem held_all (held : ∀ c ∈ children, Held c) :
    ∀ before, AtStatement before → AtStatement (before ++ tokensOfAll children) ∧
      definitionsFrom before (tokensOfAll children) =
        (Tree.withinAll holdsStatements children).countP isCounted := by
  induction children with
  | nil =>
    intro before at_
    simpa [Tree.withinAll] using at_
  | cons c rest ih =>
    intro before at_
    have first := held c List.mem_cons_self
    have later := ih (fun c' inside => held c' (List.mem_cons_of_mem _ inside)) _ (first.after before at_)
    rw [tokensOfAll_cons, Tree.withinAll, ← List.append_assoc, definitionsFrom_append,
      List.countP_append, first.definitions before at_, later.2]
    exact ⟨later.1, rfl⟩

theorem definers_eq {q : Nat} (h : definers.contains q = true) :
    q = Phrase.functionDefinition.number ∨ q = Phrase.decoratedDefinition.number := by
  simpa [definers] using h

/-- One statement counts for one definition or none. -/
theorem held_statement {q : Nat} (h : syntaxGrammar.Derived tree) (symbol : tree.symbol = .phrase q)
    (ends : endsLine tree.symbol = true) (single : holdsStatements q = false)
    (kind : quiet tree.symbol = true ∨ definers.contains q = true) : Held tree := by
  have within : tree.within holdsStatements = [tree] := by
    cases tree with
    | leaf t => cases symbol
    | node p children =>
      cases symbol
      rw [Tree.within, single]
      rfl
  have level : turn tree.symbol = 0 := by
    rcases kind with still | defines
    · rw [symbol] at still ⊢
      exact turn_phrase_of_quiet still
    · rw [symbol]
      rcases definers_eq defines with rfl | rfl <;> rfl
  refine ⟨fun before at_ => at_.after h ends level, ?_⟩
  intro before at_
  have single_ : definitionsFrom before (tokensOf tree) = if isCounted tree then 1 else 0 := by
    rcases kind with still | defines
    · rw [isCounted_of_quiet still]
      exact (Derived.nested h).outside still before (Int.le_of_eq at_.outside.symm)
    · rcases definers_eq defines with rfl | rfl
      · have other : isPhrase .decoratedDefinition tree = false := by
          rw [isPhrase, symbol]
          rfl
        have counted : isCounted tree = isPlainDefinition tree := by simp [isCounted, other]
        rw [definitions_of_function h symbol at_, counted]
      · exact definitions_of_decorated h symbol at_
  rw [within, single_, List.countP_singleton]

theorem holdsStatements_holders : ∀ q ∈ holders, holdsStatements q = true := by
  decide +kernel

/-- What holds statements together counts for what its statements count for. -/
theorem Derived.held (h : syntaxGrammar.Derived tree) :
    ∀ q ∈ holders, tree.symbol = .phrase q → Held tree := by
  induction h with
  | leaf fits => exact fun _ _ symbol => by cases symbol
  | node production symbols parts ih =>
    next p children =>
    intro q holder symbol
    cases symbol
    have shape := syntaxGrammar_shaped p production
    simp only [shaped, holdsRightly, symbolsOf_eq symbols, Bool.and_eq_true, Bool.or_eq_true,
      Bool.not_eq_true', List.all_eq_true, List.mem_map] at shape
    obtain ⟨-, holds⟩ := shape
    have holds := holds.resolve_left (by simp [holder])
    have held : ∀ c ∈ children, Held c := by
      intro c inside
      obtain ⟨ends, kind⟩ := holds c.symbol ⟨c, inside, rfl⟩
      cases phrase : c.symbol with
      | token t =>
        rw [phrase] at kind
        cases kind
      | phrase q =>
        simp only [phrase, Bool.or_eq_true, Bool.and_eq_true, Bool.not_eq_true'] at kind
        rcases kind with holder | ⟨single, kind⟩
        · exact ih c inside q (by simpa using holder) phrase
        · exact held_statement (parts c inside) phrase ends single (by rwa [phrase])
    have through : (Grammar.Tree.node p children).within holdsStatements =
        Grammar.Tree.withinAll holdsStatements children := by
      rw [Grammar.Tree.within, holdsStatements_holders _ holder]
      rfl
    constructor
    · intro before at_
      rw [tokensOf_node]
      exact (held_all held before at_).1
    · intro before at_
      rw [tokensOf_node, through]
      exact (held_all held before at_).2

/-- As many statements of a module are counted as there are plain definitions among its tokens. -/
theorem Derived.countDefinitions_eq (h : syntaxGrammar.Derived tree)
    (isModule : tree.symbol = .phrase Phrase.module.number) :
    countDefinitions tree = plainDefinitions (tokensOf tree) := by
  have held := Derived.held h _ (by decide +kernel) isModule
  rw [plainDefinitions_eq, held.definitions [] atStatement_nil]
  rfl

end DefTally.Source
