import DefTally.Proofs.Grammar.Derivation
import DefTally.Proofs.Source.PlainDefinition
import DefTally.Source.Definition

/-!
# Blocks and definitions in derived trees

Every production of the grammar of modules is checked once (`syntaxGrammar_shaped`): indents and
dedents are balanced but in a block, which ends with the dedent of the indent before it, and
outside its blocks only five kinds of phrase may hold a `def`. `Derived.nested` says by induction
on the derivation what that means for the tokens of a tree, and `Derived.ends` how the tokens of a
line end.
-/

namespace DefTally.Source

open DefTally.Grammar

/-! ## The tokens of a tree -/

/-- The tokens of a tree, from left to right. -/
def tokensOf (tree : Tree) : List Token := tree.leaves.map .ofNat

/-- The tokens of several trees, from left to right. -/
def tokensOfAll (trees : List Tree) : List Token := (Tree.leavesOf trees).map .ofNat

theorem tokensOf_leaf (t : Nat) : tokensOf (.leaf t) = [.ofNat t] := by
  simp [tokensOf, Tree.leaves]

theorem tokensOf_node (p : Production) (children : List Tree) :
    tokensOf (.node p children) = tokensOfAll children := by
  simp [tokensOf, tokensOfAll, Tree.leaves]

@[simp] theorem tokensOfAll_nil : tokensOfAll [] = [] := by
  simp [tokensOfAll, Tree.leavesOf]

@[simp] theorem tokensOfAll_cons (tree : Tree) (rest : List Tree) :
    tokensOfAll (tree :: rest) = tokensOf tree ++ tokensOfAll rest := by
  simp [tokensOf, tokensOfAll, Tree.leavesOf]

theorem tokensOfAll_append (a b : List Tree) :
    tokensOfAll (a ++ b) = tokensOfAll a ++ tokensOfAll b := by
  induction a with
  | nil => simp
  | cons tree rest ih => simp [ih]

theorem number_ofNat {t : Nat} (h : t < syntaxGrammar.tokens) : (Token.ofNat t).number = t := by
  have all : ∀ t < Token.count, (Token.ofNat t).number = t := by decide
  exact all t h

theorem ofNat_number (t : Token) : Token.ofNat t.number = t := by
  cases t <;> rfl

/-- Token numbers tell tokens apart. -/
theorem ofNat_eq_iff {t : Nat} {k : Token} (h : t < syntaxGrammar.tokens) :
    Token.ofNat t = k ↔ t = k.number := by
  constructor
  · rintro rfl
    exact (number_ofNat h).symm
  · rintro rfl
    cases k <;> rfl

/-- A tree that stands for a token has just that token. -/
theorem tokensOf_of_symbol {tree : Tree} {k : Token} (h : tree.symbol = .token k.number) :
    tokensOf tree = [k] := by
  cases tree with
  | node p children => cases h
  | leaf t =>
    cases h
    rw [tokensOf_leaf]
    cases k <;> rfl

/-! ## What productions are checked for -/

/-- The phrase number of the repetition of a phrase. -/
def runOf (p : Phrase) : Nat :=
  let bodies := ((⟨Phrase.count, []⟩ : Naming).stripAll (Phrase.all.map Phrase.rule)).2.bodies
  Phrase.count + bodies.idxOf (ph p)

/-- The symbols of a production. -/
def symbolsOf (p : Production) : List Symbol := p.body.map Step.symbol

/-- How many more blocks a symbol opens than it closes. -/
def turn (x : Symbol) : Int :=
  if x = .token Token.indent.number then 1
  else if x = .token Token.dedent.number ∨ x = .phrase Phrase.block.number then -1
  else 0

/-- The phrases that hold the statements of a module together. -/
def holders : List Nat := [Phrase.module.number, Phrase.statement.number, runOf .statement]

/-- The phrases that may hold a plain definition as a statement. -/
def definers : List Nat := [Phrase.functionDefinition.number, Phrase.decoratedDefinition.number]

/-- A symbol that closes no block and holds no `def` but in blocks. -/
def quiet : Symbol → Bool
  | .token t => t != Token.kwDef.number && t != Token.dedent.number
  | .phrase p => p != Phrase.block.number && !holders.contains p && !definers.contains p

/-- Follows the depth through symbols: outside blocks they are to be quiet. -/
def calm : Int → List Symbol → Option Int
  | r, [] => some r
  | r, x :: xs => if 1 ≤ r || quiet x then calm (r + turn x) xs else none

/-- The phrases that end with the end of a line or a block. -/
def lineEnders : List Nat :=
  (List.map Phrase.number [.statement, .statementLine, .ifStatement, .elifClause, .elseClause,
    .matchStatement, .matchBlock, .caseClause, .forStatement, .whileStatement, .tryStatement,
    .exceptClause, .exceptGroupClause, .finallyClause, .withStatement, .functionDefinition,
    .classDefinition, .decoratedDefinition, .decorator, .block]) ++
  List.map runOf [.statement, .elifClause, .caseClause, .exceptClause, .exceptGroupClause, .decorator]

/-- A symbol that ends with the end of a line or a block. -/
def endsLine : Symbol → Bool
  | .token t => t == Token.newline.number || t == Token.dedent.number
  | .phrase p => lineEnders.contains p

/-- Blocks are balanced in a production, and outside them a quiet phrase has quiet parts. -/
def nests (p : Production) : Bool :=
  (calm 1 (symbolsOf p) == some (1 + turn (.phrase p.head))) &&
    (!quiet (.phrase p.head) || calm 0 (symbolsOf p) == some 0)

/-- A phrase that ends a line has such a symbol last. -/
def endsRightly (p : Production) : Bool :=
  !lineEnders.contains p.head || (symbolsOf p).getLast?.any endsLine

/-- A function definition begins with `def` or `async def`. -/
def definesRightly (p : Production) : Bool :=
  p.head != Phrase.functionDefinition.number || match symbolsOf p with
    | x :: y :: rest =>
      if x = .token Token.kwAsync.number then
        y = .token Token.kwDef.number && calm 0 rest == some 0
      else x = .token Token.kwDef.number && calm 0 (y :: rest) == some 0 &&
        !(y :: rest).contains (.token Token.kwAsync.number)
    | _ => false

/-- A decorated definition is one of a function or a class, after lines of decorators. -/
def decoratesRightly (p : Production) : Bool :=
  p.head != Phrase.decoratedDefinition.number || match symbolsOf p with
    | [x, y] => quiet x && turn x == 0 && endsLine x &&
        (y = .phrase Phrase.functionDefinition.number || quiet y)
    | _ => false

/-- What holds statements together holds whole lines that are statements or hold some. -/
def holdsRightly (p : Production) : Bool :=
  !holders.contains p.head || (symbolsOf p).all fun x => endsLine x && match x with
    | .token _ => false
    | .phrase q => holders.contains q ||
        (!holdsStatements q && (quiet x || definers.contains q))

/-- Everything that a production is checked for. -/
def shaped (p : Production) : Bool :=
  nests p && endsRightly p && definesRightly p && decoratesRightly p && holdsRightly p

set_option maxRecDepth 100000 in
/-- Every production of the grammar of modules passes the checks. -/
theorem syntaxGrammar_shaped : ∀ p ∈ syntaxGrammar.allProductions, shaped p = true := by
  decide +kernel

set_option maxRecDepth 100000 in
theorem syntaxGrammar_closed : syntaxGrammar.Closed where
  heads := by decide +kernel
  steps := by decide +kernel
  goal := by decide +kernel
  ending := by decide +kernel

/-! ## Blocks -/

variable {tree : Tree} {p : Production} {children : List Tree} {x : Symbol} {before : List Token}

/-- A quiet symbol closes no block. -/
theorem turn_of_quiet (h : quiet x = true) : 0 ≤ turn x := by
  unfold turn
  split
  · omega
  · split
    · next closes => rcases closes with rfl | rfl <;> simp [quiet] at h
    · omega

/-- A quiet phrase opens as many blocks as it closes. -/
theorem turn_phrase_of_quiet {q : Nat} (h : quiet (.phrase q) = true) : turn (.phrase q) = 0 := by
  have other : q ≠ Phrase.block.number := by
    simp only [quiet, Bool.and_eq_true, bne_iff_ne] at h
    exact h.1.1
  simp [turn, other]

theorem neg_one_le_turn (x : Symbol) : -1 ≤ turn x := by
  unfold turn
  repeat' split
  all_goals omega

/-- What the tokens of a tree do to the depth, and where they define nothing. -/
structure Nested (tree : Tree) : Prop where
  turn : depthAfter (tokensOf tree) = turn tree.symbol
  inside : ∀ before, 1 ≤ depthAfter before → definitionsFrom before (tokensOf tree) = 0
  outside : quiet tree.symbol = true → ∀ before, 0 ≤ depthAfter before →
    definitionsFrom before (tokensOf tree) = 0

/-- The parts of a calm production define nothing, and the depth goes as it was followed. -/
theorem calm_spec {children : List Tree} (nested : ∀ c ∈ children, Nested c) :
    ∀ {r r' : Int}, 0 ≤ r → calm r (children.map Tree.symbol) = some r' →
      depthAfter (tokensOfAll children) = r' - r ∧
        ∀ before, r ≤ depthAfter before → definitionsFrom before (tokensOfAll children) = 0 := by
  induction children with
  | nil =>
    intro r r' _ followed
    rw [List.map_nil, calm, Option.some.injEq] at followed
    rw [tokensOfAll_nil, depthAfter_nil]
    exact ⟨by omega, fun _ _ => rfl⟩
  | cons c rest ih =>
    intro r r' low followed
    rw [List.map_cons, calm] at followed
    split at followed
    · next here =>
      have first := nested c List.mem_cons_self
      simp only [Bool.or_eq_true, decide_eq_true_eq] at here
      have low' : 0 ≤ r + turn c.symbol := by
        rcases here with deep | still
        · have := neg_one_le_turn c.symbol
          omega
        · have := turn_of_quiet still
          omega
      obtain ⟨depth, none⟩ := ih (fun c' h => nested c' (List.mem_cons_of_mem _ h)) low' followed
      rw [tokensOfAll_cons, depthAfter_append, first.turn, depth]
      refine ⟨by omega, ?_⟩
      intro before high
      have rest_ : definitionsFrom (before ++ tokensOf c) (tokensOfAll rest) = 0 := by
        apply none
        rw [depthAfter_append, first.turn]
        omega
      have first_ : definitionsFrom before (tokensOf c) = 0 := by
        rcases here with deep | still
        · exact first.inside before (by omega)
        · exact first.outside still before (by omega)
      rw [definitionsFrom_append, first_, rest_]
    · cases followed

/-- A token turns the depth by what it opens or closes, and only `def` can define anything. -/
theorem nested_leaf {t : Nat} (fits : t < syntaxGrammar.tokens) : Nested (.leaf t) := by
  have symbol : (Tree.leaf t).symbol = .token t := rfl
  refine ⟨?_, ?_, ?_⟩
  · rw [tokensOf_leaf, symbol, turn]
    by_cases opens : t = Token.indent.number
    · subst opens
      rfl
    · by_cases closes : t = Token.dedent.number
      · subst closes
        rfl
      · rw [depthAfter_single (mt (ofNat_eq_iff fits).1 opens) (mt (ofNat_eq_iff fits).1 closes)]
        simp [opens, closes]
  · intro before deep
    rw [tokensOf_leaf, definitionsFrom_single, isPlainAfter_of_depth deep]
    rfl
  · intro still before _
    have other : t ≠ Token.kwDef.number := by
      simp only [symbol, quiet, Bool.and_eq_true, bne_iff_ne] at still
      exact still.1
    rw [tokensOf_leaf, definitionsFrom_single, isPlainAfter_of_ne (mt (ofNat_eq_iff fits).1 other)]
    rfl

theorem symbolsOf_eq (symbols : children.map Tree.symbol = p.body.map Step.symbol) :
    symbolsOf p = children.map Tree.symbol := symbols.symm

/-- Nothing inside a block is a top-level definition, and blocks are balanced. -/
theorem Derived.nested (h : syntaxGrammar.Derived tree) : Nested tree := by
  induction h with
  | leaf fits => exact nested_leaf fits
  | node production symbols parts ih =>
    next p children =>
    have shape := syntaxGrammar_shaped p production
    simp only [shaped, nests, symbolsOf_eq symbols, Bool.and_eq_true, beq_iff_eq, Bool.or_eq_true,
      Bool.not_eq_true'] at shape
    obtain ⟨⟨⟨⟨⟨deep, still⟩, -⟩, -⟩, -⟩, -⟩ := shape
    obtain ⟨depth, none⟩ := calm_spec ih (by omega) deep
    refine ⟨?_, ?_, ?_⟩
    · rw [tokensOf_node, depth, Tree.symbol]
      omega
    · rw [tokensOf_node]
      exact none
    · intro isQuiet
      rw [Tree.symbol] at isQuiet
      rw [isQuiet] at still
      rw [tokensOf_node]
      exact (calm_spec ih (by omega) (still.resolve_left (by simp))).2

/-! ## The ends of lines -/

/-- The last token of a phrase that ends a line is the end of the line or of a block. -/
theorem Derived.ends (h : syntaxGrammar.Derived tree) (ends : endsLine tree.symbol = true) :
    ∃ init t, tokensOf tree = init ++ [t] ∧ t ≠ .kwAsync := by
  induction h with
  | leaf fits =>
    next t =>
    refine ⟨[], .ofNat t, tokensOf_leaf t, ?_⟩
    simp only [Tree.symbol, endsLine, Bool.or_eq_true, beq_iff_eq] at ends
    rcases ends with rfl | rfl <;> decide
  | node production symbols parts ih =>
    next p children =>
    have shape := syntaxGrammar_shaped p production
    simp only [shaped, endsRightly, symbolsOf_eq symbols, Bool.and_eq_true, Bool.or_eq_true,
      Bool.not_eq_true'] at shape
    obtain ⟨⟨⟨⟨-, last⟩, -⟩, -⟩, -⟩ := shape
    rw [Tree.symbol, endsLine] at ends
    rw [ends] at last
    have last := last.resolve_left (by simp)
    rw [List.getLast?_map, Option.any_map, Option.any_eq_true] at last
    obtain ⟨c, isLast, endsThere⟩ := last
    obtain ⟨front, rfl⟩ := List.getLast?_eq_some_iff.1 isLast
    obtain ⟨init, t, tokens, other⟩ := ih c (by simp) endsThere
    refine ⟨tokensOfAll front ++ init, t, ?_, other⟩
    rw [tokensOf_node, tokensOfAll_append, tokensOfAll_cons, tokensOfAll_nil, tokens, List.append_nil,
      List.append_assoc]

end DefTally.Source
