import DefTally.Proofs.Source.Blocks
import DefTally.Proofs.Source.Statements

/-!
# Parsing a series of blocks

Every kind of block is worked out once, at the start of a module and after other statements
(`blocks_checked`): the parser comes back to where it was, with one plain definition more if the
block is counted, or it gives up if the block is broken. `run_blocks` says by induction what that
means for a series of any length.
-/

namespace DefTally.Source

open DefTally.Grammar

/-! ## What is worked out -/

/-- The stack after statements. -/
def afterStatements : View := (moduleFacts.grow [] (.phrase (runOf .statement))).getD []

/-- The stacks that a block may come after. -/
def bases : List View := [[], afterStatements]

namespace Block

/-- What of the lexemes of a block matters to the parser. -/
def outline (b : Block) : List (List Char × Shape) := b.script.map Piece.outline

/-- The tokens make as many plain definitions as the block does, and leave nothing open. -/
def tallies (b : Block) (tokens : List Token) : Bool :=
  depthAfter tokens == 0 && tokens.getLast? != some .kwAsync &&
    definitionsFrom [] tokens == if b.isCounted then 1 else 0

/-- After the block the parser is where it is after statements. -/
def passes (base : View) (b : Block) : Bool :=
  (((Spot.fresh base).begin b.outline).bind (Spot.settle (Gap.empty.over b.tail) 8)).any fun s =>
    s.isBetween afterStatements b.tail && b.tallies s.read && s.read.length ≤ 4 * b.outline.length

/-- The parser gives up at the colon of the broken block. -/
def spoils (base : View) : Bool :=
  ((Spot.fresh base).begin (broken.outline.take 3)).any fun s =>
    !mayStand (expectsAt s.view) .colon && !expectsAt s.view .formatText && s.read.length ≤ 12

end Block

set_option maxRecDepth 100000 in
theorem blocks_checked :
    (∀ base ∈ bases, isWhole base = true ∧ Block.spoils base = true ∧
      ∀ b ∈ Block.samples, b ≠ .broken → b.passes base = true) ∧
    (Spot.fresh []).isBetween [] [] = true := by
  decide +kernel

variable {before tokens : List Token} {s s' : Spot} {th : ModuleThread} {base : View} {b : Block}
  {blanks rest : List Char}

/-! ## One block -/

theorem script_cons (b : Block) : ∃ p ps, b.script = p :: ps ∧ p.blanks = [] := by
  cases b <;> exact ⟨_, _, rfl, rfl⟩

/-- The blanks that end a block are alike before another block and at the end of the text. -/
theorem gapBefore_tail (b : Block) (rest : List Char) :
    gapBefore b.tail rest = Gap.empty.over b.tail := by
  cases rest with
  | nil => cases b <;> rfl
  | cons c cs => rfl

/-- A script is read from its first lexeme on, whatever came before. -/
theorem At.begin {p : Piece} {ps : List Piece} {tail : List Char}
    (at_ : At before s (blanks ++ (written tail (p :: ps) ++ rest)) th)
    (between : s.isBetween base blanks = true) (inner : p.blanks = [])
    (legible : isLegible tail (p :: ps) = true)
    (read : (Spot.fresh base).begin ((p :: ps).map Piece.outline) = some s') :
    ∃ th' n, Goes n th th' ∧ At (before ++ s.read) s' (tail ++ rest) th' ∧ s'.read.length = n ∧
      s'.layout.quotes = [] := by
  simp only [isLegible, Bool.and_eq_true, Option.any_eq_true] at legible
  obtain ⟨⟨c, head, clear⟩, legible⟩ := legible
  obtain ⟨v, text⟩ : ∃ v, written tail ps = c :: v := by
    cases text : written tail ps with
    | nil => simp [text] at head
    | cons d ds =>
      rw [text, List.head?_cons, Option.some.injEq] at head
      exact ⟨ds, by rw [head]⟩
  simp only [List.map_cons, Piece.outline, Spot.begin] at read
  split at read
  · next opens =>
    obtain ⟨s₁, shifted, later⟩ := Option.bind_eq_some_iff.1 read
    have start : At before s (blanks ++ (p.text ++ c :: (v ++ rest))) th := by
      simpa [written, inner, text] using at_
    have opens : p.shape.opener ∈ openers := by simpa using opens
    obtain ⟨th₁, goes₁, at₁, length₁⟩ := start.opens between clear opens shifted
    have layout : s₁.layout = .outermost := shift_layout shifted
    have outside : s₁.layout.quotes = [] := by
      rw [layout]
      rfl
    rw [← List.cons_append, ← text] at at₁
    obtain ⟨⟨th₂, n, goes₂, at₂, length₂⟩, outside₂⟩ := at₁.reads outside legible later
    exact ⟨th₂, n + 1, goes₁.trans goes₂, at₂, by omega, outside₂⟩
  · cases read

/-- After a block that is not broken, the parser is between two statements again. -/
theorem At.block (at_ : At before s (blanks ++ (written b.tail b.script ++ rest)) th)
    (between : s.isBetween base blanks = true) (passes : b.passes base = true)
    (goes : goesOn rest = true) :
    ∃ th' s' n, Goes n th th' ∧ At (before ++ s.read) s' (b.tail ++ rest) th' ∧
      s'.isBetween afterStatements b.tail = true ∧ b.tallies s'.read = true ∧
      s'.read.length = n ∧ n ≤ 4 * b.script.length := by
  simp only [Block.passes, Option.any_eq_true, Bool.and_eq_true, decide_eq_true_eq] at passes
  obtain ⟨s₂, read, ⟨between₂, tallies⟩, few⟩ := passes
  obtain ⟨s₁, begun, settled⟩ := Option.bind_eq_some_iff.1 read
  obtain ⟨p, ps, script, inner⟩ := script_cons b
  have legible := b.legible
  rw [Block.outline, script] at begun
  rw [script] at at_ legible
  obtain ⟨th₁, n₁, goes₁, at₁, length₁, outside⟩ := at_.begin between inner legible begun
  have gap : isGap b.tail = true := by cases b <;> rfl
  rw [← gapBefore_tail b rest] at settled
  obtain ⟨⟨th₂, n₂, goes₂, at₂, length₂⟩, -, -⟩ := at₁.settle gap goes 8 outside settled
  have few' : s₂.read.length ≤ 4 * b.script.length := by simpa [Block.outline] using few
  exact ⟨th₂, s₂, n₂ + n₁, goes₁.trans goes₂, at₂, between₂, tallies, by omega, by omega⟩

/-- A broken block makes the parser give up, wherever it stands. -/
theorem At.broken (at_ : At before s (blanks ++ (written Block.broken.tail Block.broken.script ++ rest)) th)
    (between : s.isBetween base blanks = true) (spoils : Block.spoils base = true) (fuel : Nat)
    (enough : 12 ≤ fuel) :
    run moduleTable.automaton moduleReader syntaxGrammar.productions.size fuel [th] = none := by
  simp only [Block.spoils, Option.any_eq_true, Bool.and_eq_true, Bool.not_eq_true',
    decide_eq_true_eq] at spoils
  obtain ⟨s₁, begun, ⟨barred, plain⟩, few⟩ := spoils
  -- the script up to the bracket, and the colon that may not stand after it
  have parted : Block.broken.script = Block.broken.script.take 3 ++ [.mark .colon, .pass 4] := rfl
  have legible := Block.broken.legible
  rw [parted, isLegible_append, Bool.and_eq_true] at legible
  rw [parted, written_script_append] at at_
  obtain ⟨th₁, n, goes, at₁, length, outside⟩ := at_.begin between rfl legible.1 begun
  obtain ⟨v, follows⟩ : ∃ v, written Block.broken.tail [.mark .colon, .pass 4] ++ rest =
      [] ++ ((Piece.mark .colon).text ++ '\n' :: v) := ⟨_, rfl⟩
  rw [follows] at at₁
  have clear : (Piece.mark .colon).isClear '\n' = true := by
    have both := legible.2
    rw [isLegible, Bool.and_eq_true] at both
    exact both.1
  obtain ⟨m, rfl⟩ : ∃ m, fuel = m + n := ⟨fuel - n, by omega⟩
  rw [goes]
  exact at₁.stuck outside clear rfl plain barred rfl m

/-! ## A series of blocks -/

/-- The text of a series of blocks. -/
def textOf (blocks : List Block) : List Char := blocks.flatMap fun b => b.text.toList

theorem textOf_cons (b : Block) (blocks : List Block) :
    textOf (b :: blocks) = written b.tail b.script ++ textOf blocks := by
  rw [textOf, List.flatMap_cons, Block.text_eq]
  rfl

theorem goesOn_textOf (blocks : List Block) : goesOn (textOf blocks) = true := by
  cases blocks with
  | nil => rfl
  | cons b rest =>
    rw [textOf_cons]
    obtain ⟨p, ps, script, inner⟩ := script_cons b
    have legible := b.legible
    rw [script, isLegible, Bool.and_eq_true, Option.any_eq_true] at legible
    obtain ⟨⟨c, -, clear⟩, -⟩ := legible
    rw [script, written, inner, List.nil_append, List.append_assoc]
    exact (goesOn_of_isClear clear _).1

theorem passes_sample (base : View) (b : Block) : b.passes base = b.sample.passes base := by
  have outline : b.outline = b.sample.outline := by cases b <;> rfl
  have tail : b.tail = b.sample.tail := b.tail_sample.symm
  have counted : b.isCounted = b.sample.isCounted := by cases b <;> rfl
  simp only [Block.passes, Block.tallies, outline, tail, counted]

/-- A block that is not broken has been worked out. -/
theorem passes_of_ne (isBase : base ∈ bases) (whole : b ≠ .broken) : b.passes base = true := by
  rw [passes_sample]
  refine (blocks_checked.1 base isBase).2.2 _ b.sample_mem ?_
  cases b <;> simp_all [Block.sample]

/-- The plain definitions of a block are counted alike after any block. -/
theorem definitionsFrom_of_tallies (tallies : b.tallies s.read = true)
    (depth : depthAfter before = 0) (last : before.getLast? ≠ some .kwAsync) :
    definitionsFrom before s.read = (if b.isCounted then 1 else 0) ∧
      depthAfter (before ++ s.read) = 0 ∧ (before ++ s.read).getLast? ≠ some .kwAsync := by
  simp only [Block.tallies, Bool.and_eq_true, beq_iff_eq, bne_iff_ne] at tallies
  obtain ⟨⟨depth', last'⟩, count⟩ := tallies
  refine ⟨?_, ?_, ?_⟩
  · rw [← count]
    apply definitionsFrom_congr depth
    exact iff_of_true last (by simp)
  · rw [depthAfter_append, depth, depth']
    rfl
  · rw [List.getLast?_append]
    cases read : s.read.getLast? with
    | none => simpa using last
    | some t => simpa [read] using last'

/-- What parsing a series of blocks comes to. -/
theorem run_blocks (blocks : List Block) : ∀ {before s th base blanks}, base ∈ bases →
    At before s (blanks ++ textOf blocks) th → s.isBetween base blanks = true →
    ∀ fuel, 4 * (textOf blocks).length + 1 ≤ fuel →
      (.broken ∈ blocks →
        run moduleTable.automaton moduleReader syntaxGrammar.productions.size fuel [th] = none) ∧
      (.broken ∉ blocks → ∃ tree tokens,
        run moduleTable.automaton moduleReader syntaxGrammar.productions.size fuel [th] = some tree ∧
        tree.leaves = (before ++ s.read ++ tokens).map Token.number ∧
        ∀ earlier, depthAfter earlier = 0 → earlier.getLast? ≠ some .kwAsync →
          definitionsFrom earlier tokens = blocks.countP Block.isCounted) := by
  induction blocks with
  | nil =>
    intro before s th base blanks isBase at_ between fuel enough
    refine ⟨fun inside => absurd inside List.not_mem_nil, fun _ => ?_⟩
    have at_ : At before s blanks th := by simpa [textOf] using at_
    obtain ⟨tree, leaves, done⟩ := at_.ends between (blocks_checked.1 base isBase).1
    obtain ⟨m, rfl⟩ : ∃ m, fuel = m + 1 := ⟨fuel - 1, by omega⟩
    exact ⟨tree, [], done m, by rw [leaves, List.append_nil], fun _ _ _ => rfl⟩
  | cons b rest ih =>
    intro before s th base blanks isBase at_ between fuel enough
    have short := length_le_of_isLegible b.legible
    rw [textOf_cons] at at_ enough
    rw [List.length_append] at enough
    by_cases isBroken : b = .broken
    · subst isBroken
      have spoils := (blocks_checked.1 base isBase).2.1
      have five : Block.broken.script.length = 5 := rfl
      have none := at_.broken between spoils fuel (by omega)
      exact ⟨fun _ => none, fun sound => absurd List.mem_cons_self sound⟩
    · obtain ⟨th₁, s₁, n, goes, at₁, between₁, tallies, -, few⟩ :=
        at_.block between (passes_of_ne isBase isBroken) (goesOn_textOf rest)
      obtain ⟨m, rfl⟩ : ∃ m, fuel = m + n := ⟨fuel - n, by omega⟩
      obtain ⟨spoiled, sound⟩ :=
        ih (List.mem_cons_of_mem _ List.mem_cons_self) at₁ between₁ m (by omega)
      rw [goes]
      constructor
      · intro inside
        exact spoiled ((List.mem_cons.1 inside).resolve_left (Ne.symm isBroken))
      · intro outside
        obtain ⟨tree, tokens, parsed, leaves, counts⟩ :=
          sound fun inside => outside (List.mem_cons_of_mem _ inside)
        refine ⟨tree, s₁.read ++ tokens, parsed, by rw [leaves, List.append_assoc], ?_⟩
        intro earlier depth last
        obtain ⟨here, depth', last'⟩ := definitionsFrom_of_tallies tallies depth last
        rw [definitionsFrom_append, here, counts _ depth' last', List.countP_cons]
        exact Nat.add_comm _ _

/-- The text of a series of blocks is a module if no block is broken, and the module has as many
plain definitions as there are blocks that are counted. -/
theorem moduleTree?_textOf (blocks : List Block) :
    (.broken ∈ blocks → moduleTree? (textOf blocks) = none) ∧
      (.broken ∉ blocks → ∃ tree, moduleTree? (textOf blocks) = some tree ∧
        countDefinitions tree = blocks.countP Block.isCounted) := by
  have start : At [] (Spot.fresh []) ([] ++ textOf blocks) ⟨[], .start (textOf blocks)⟩ :=
    ⟨.nil, rfl, rfl, by simp [word, Tree.leavesOf, Spot.fresh]⟩
  obtain ⟨spoiled, sound⟩ := run_blocks blocks List.mem_cons_self start blocks_checked.2
    (tokenBound (textOf blocks)) (by rw [tokenBound]; omega)
  refine ⟨spoiled, fun outside => ?_⟩
  obtain ⟨tree, tokens, parsed, leaves, counts⟩ := sound outside
  have parsed : moduleTree? (textOf blocks) = some tree := parsed
  have same : tokensOf tree = tokens := by
    rw [tokensOf, leaves, List.map_map]
    have cancel : Token.ofNat ∘ Token.number = id := funext ofNat_number
    rw [cancel]
    simp [Spot.fresh]
  obtain ⟨derived, isModule⟩ := moduleTree?_derived parsed
  refine ⟨tree, parsed, ?_⟩
  rw [Derived.countDefinitions_eq derived isModule, plainDefinitions_eq, same]
  exact counts [] rfl (by simp)

end DefTally.Source
