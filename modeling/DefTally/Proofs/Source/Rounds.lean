import DefTally.Proofs.Grammar.Rounds
import DefTally.Proofs.Grammar.Words
import DefTally.Proofs.Source.LastLine
import DefTally.Proofs.Source.Module

/-!
# How many tokens a module has

A thread that reads a whole module reads no more tokens than `tokenBound` allows, so that the bound
hides nothing: `moduleTree?_eq` says that any more rounds find the same. The invariant is `Reached`:
every token that is not of the layout takes a character, and of the layout there are few, because a
line end or an indentation never follows the layout of another line (`syntaxGrammar_regular`), and
blocks are closed once.
-/

namespace DefTally.Source

open DefTally.Grammar

/-! ## What productions are checked for -/

/-- The number of a token of the layout. -/
def isLayoutNumber (t : Nat) : Bool :=
  t == Token.newline.number || t == Token.indent.number || t == Token.dedent.number

/-- A symbol that ends with a token of the layout. -/
def endsInLayout : Symbol → Bool
  | .token t => isLayoutNumber t
  | .phrase p => lineEnders.contains p || p == Phrase.module.number

/-- A symbol that begins with the end of a line or an indentation. -/
def beginsWithLine : Symbol → Bool
  | .token t => t == Token.newline.number || t == Token.indent.number
  | .phrase p => p == Phrase.matchBlock.number

/-- No line ends or opens a block right after the layout of another one, string literals that begin
also end, and the end of the text is no part of a phrase. -/
def regular (p : Production) : Bool :=
  p.isSpaced syntaxGrammar endsInLayout beginsWithLine &&
    p.isBalanced Token.stringStart.number Token.stringEnd.number &&
    !(p.body.map Step.symbol).contains (.token Token.endOfText.number)

set_option maxRecDepth 100000 in
theorem syntaxGrammar_regular : ∀ p ∈ syntaxGrammar.allProductions, regular p = true := by
  decide +kernel

/-! ## Tokens of words -/

variable {t s : Token} {meant : Nat} {w : List Nat}

theorem number_inj {t s : Token} : t.number = s.number ↔ t = s := by
  constructor
  · intro same
    rw [← ofNat_number t, same, ofNat_number]
  · rintro rfl
    rfl

theorem isLayoutNumber_number (t : Token) : isLayoutNumber t.number = t.isLayout := by
  cases t <;> rfl

theorem moduleReader_plainOnce : moduleReader.PlainOnce := by
  intro t u plain
  rw [(eq_name_of_plain plain).2]
  decide

/-- A token that is no word is read as itself. -/
theorem meant_eq_iff (reads : moduleReader.Reads t.number meant) (noWord : s.isKeyword = false)
    (noName : s ≠ .name) : meant = s.number ↔ t = s := by
  rcases reads with rfl | plain
  · exact number_inj
  · obtain ⟨keyword, rfl⟩ := eq_name_of_plain plain
    rw [ofNat_number] at keyword
    rw [number_inj]
    constructor
    · intro same
      exact absurd same.symm noName
    · rintro rfl
      rw [keyword] at noWord
      cases noWord

theorem count_concat (reads : moduleReader.Reads t.number meant) (noWord : s.isKeyword = false)
    (noName : s ≠ .name) :
    (w ++ [meant]).count s.number = w.count s.number + if t = s then 1 else 0 := by
  simp only [List.count_append, List.count_singleton, beq_iff_eq, meant_eq_iff reads noWord noName]

/-- How many tokens of a word are of the layout. -/
def layoutCount (w : List Nat) : Nat := w.countP isLayoutNumber

theorem layoutCount_concat (reads : moduleReader.Reads t.number meant) :
    layoutCount (w ++ [meant]) = layoutCount w + if t.isLayout then 1 else 0 := by
  have same : isLayoutNumber meant = t.isLayout := by
    rcases reads with rfl | plain
    · exact isLayoutNumber_number t
    · obtain ⟨keyword, rfl⟩ := eq_name_of_plain plain
      rw [ofNat_number] at keyword
      cases t <;> first | rfl | cases keyword
  rw [layoutCount, layoutCount, List.countP_append, List.countP_singleton, same]

theorem layoutCount_cons (t : Nat) (w : List Nat) :
    layoutCount (t :: w) = layoutCount w + if isLayoutNumber t then 1 else 0 := by
  rw [layoutCount, layoutCount, List.countP_cons]

/-- Indentations and dedentations are of the layout. -/
theorem count_blocks_le (w : List Nat) :
    w.count Token.indent.number + w.count Token.dedent.number ≤ layoutCount w := by
  induction w with
  | nil => exact Nat.le_refl 0
  | cons t rest ih =>
    have apart : Token.indent.number ≠ Token.dedent.number := by decide
    rw [layoutCount_cons, List.count_cons, List.count_cons]
    simp only [isLayoutNumber, beq_iff_eq, Bool.or_eq_true]
    split <;> split <;> split <;> omega

/-- Line ends and indentations that are apart from the layout before them are no more than the other
tokens, but for one at the start. -/
theorem layoutCount_le (spaced : apart endsInLayout beginsWithLine (w.map .token) = true) :
    2 * layoutCount w ≤ w.length + w.count Token.dedent.number + 1 := by
  have all : 2 * layoutCount w ≤ w.length + w.count Token.dedent.number +
      if (w.map .token).head?.any beginsWithLine then 1 else 0 := by
    induction w with
    | nil => exact Nat.le_refl 0
    | cons t rest ih =>
      rw [List.map_cons, apart_cons, Bool.and_eq_true, Bool.not_eq_true', Bool.and_eq_false_iff] at spaced
      have ih := ih spaced.2
      rw [layoutCount_cons, List.count_cons, List.length_cons, List.map_cons, List.head?_cons,
        Option.any_some]
      cases layout : isLayoutNumber t with
      | true =>
        have still : ((rest.map .token).head?.any beginsWithLine) = false :=
          spaced.1.resolve_left (by simp [endsInLayout, layout])
        have either : beginsWithLine (.token t) = true ∨ (t == Token.dedent.number) = true := by
          simpa [isLayoutNumber, beginsWithLine] using layout
        rw [still] at ih
        rcases either with begins | dedent
        · simp only [begins, if_true, Bool.false_eq_true, if_false] at ih ⊢
          omega
        · simp only [dedent, if_true, Bool.false_eq_true, if_false] at ih ⊢
          omega
      | false =>
        simp only [Bool.false_eq_true, if_false]
        split at ih <;> omega
  split at all <;> omega

/-! ## Threads -/

variable {text : List Char} {th th' : ModuleThread} {chain i : Nat} {tree : Tree}

/-- How a thread has come to where it is in a text after so many rounds. -/
structure Reached (text : List Char) (i : Nat) (th : ModuleThread) : Prop where
  stands : Stands syntaxGrammar moduleTable.automaton th.stack
  rest : th.place.rest = text.drop th.place.offset
  within : th.place.offset ≤ text.length
  marked : th.place.layout.Marked
  strings : th.place.layout.quotes.length + (word th.stack).count Token.stringEnd.number ≤
    (word th.stack).count Token.stringStart.number
  blocks : th.place.layout.indents.length + (word th.stack).count Token.dedent.number ≤
    (word th.stack).count Token.indent.number
  tokens : (word th.stack).length ≤ i
  rounds : i ≤ th.place.offset + layoutCount (word th.stack)

theorem Reached.start (text : List Char) : Reached text 0 ⟨[], .start text⟩ where
  stands := .nil
  rest := rfl
  within := Nat.zero_le _
  marked := fun _ inside => absurd inside List.not_mem_nil
  strings := Nat.le_refl _
  blocks := Nat.le_refl _
  tokens := Nat.le_refl _
  rounds := Nat.zero_le _

theorem Reached.length_rest (reached : Reached text i th) :
    th.place.offset + th.place.rest.length = text.length := by
  have within := reached.within
  rw [reached.rest, List.length_drop]
  omega

/-- The end of the text is no part of a phrase. -/
theorem endOfText_not_mem : ∀ p ∈ syntaxGrammar.allProductions,
    .token Token.endOfText.number ∉ p.body.map Step.symbol := by
  intro p production
  have checked := syntaxGrammar_regular p production
  simp only [regular, Bool.and_eq_true, Bool.not_eq_true', List.contains_eq_mem,
    decide_eq_false_iff_not] at checked
  exact checked.2

/-- A step that goes on reads a token, which is ignored or comes on the stack. -/
structure Passes (t : Token) (th th' : ModuleThread) : Prop where
  read : th.place.next (expected th) = some (t, th'.place)
  notEnd : t ≠ .endOfText
  length : (word th'.stack).length ≤ (word th.stack).length + 1
  layout : layoutCount (word th'.stack) = layoutCount (word th.stack) + if t.isLayout then 1 else 0
  count : ∀ s : Token, s.isKeyword = false → s ≠ .name → s.isIgnored = false →
    (word th'.stack).count s.number = (word th.stack).count s.number + if t = s then 1 else 0

theorem Reached.passes (reached : Reached text i th)
    (stepped : .onward th' ∈ th.step moduleTable.automaton moduleReader chain) :
    ∃ t, Passes t th th' := by
  obtain ⟨t, after, read, ⟨ignored, same⟩ | resolved⟩ := mem_step stepped
  · cases same
    have noLayout : t.isLayout = false := by
      cases t <;> first | rfl | cases ignored
    refine ⟨t, read, ?_, Nat.le_succ _, by rw [noLayout]; rfl, ?_⟩
    · rintro rfl
      cases ignored
    · intro s _ _ heeded
      have other : t ≠ s := by
        rintro rfl
        rw [ignored] at heeded
        cases heeded
      rw [if_neg other]
      rfl
  · obtain ⟨place, meant, reads, word'⟩ := resolve_extends moduleReader_plainOnce after _ _ resolved
    refine ⟨t, place ▸ read, ?_, ?_, ?_, ?_⟩
    · rintro rfl
      exact onward_not_mem_resolve (f := moduleFacts) moduleTable_mirrors moduleFacts_closed
        (number_lt .endOfText) rfl endOfText_not_mem after _ reached.stands th' resolved
    · rw [word', List.length_append, List.length_singleton]
    · rw [word', layoutCount_concat reads]
    · intro s noWord noName _
      rw [word', count_concat reads noWord noName]

/-- What a thread has read of a text is kept by a step. -/
theorem reached_kept (text : List Char) (chain : Nat) :
    Kept moduleTable.automaton moduleReader chain (Reached text) := by
  intro i th th' reached stepped
  have stands : Stands syntaxGrammar moduleTable.automaton th'.stack :=
    step_sound (f := moduleFacts) moduleTable_mirrors moduleFacts_closed moduleReader_within chain
      reached.stands _ stepped
  obtain ⟨t, passes⟩ := reached.passes stepped
  obtain ⟨n, l', takes, place⟩ := Place.next_takes passes.read
  have count := passes.count
  have fits := takes.fits
  have length := reached.length_rest
  refine ⟨stands, ?_, ?_, ?_, ?_, ?_, ?_, ?_⟩
  · rw [place, Place.forward, reached.rest, List.drop_drop]
  · simp only [place, Place.forward]
    omega
  · rw [place]
    exact takes.marked reached.marked
  · have quotes := takes.quotes
    have strings := reached.strings
    rw [place, Place.forward, count .stringStart rfl (by decide) rfl,
      count .stringEnd rfl (by decide) rfl]
    dsimp only
    omega
  · have indents := takes.indents
    have blocks := reached.blocks
    rw [place, Place.forward, count .indent rfl (by decide) rfl,
      count .dedent rfl (by decide) rfl]
    dsimp only
    omega
  · have longer := passes.length
    have tokens := reached.tokens
    omega
  · have rounds := reached.rounds
    rw [place, passes.layout]
    simp only [Place.forward]
    cases layout : t.isLayout with
    | true =>
      simp only [if_true]
      omega
    | false =>
      have moves := takes.moves layout passes.notEnd
      omega

/-! ## Whole texts -/

/-- The tokens of a module's tree. -/
theorem Derived.regular (derived : syntaxGrammar.Derived tree)
    (goal : tree.symbol = .phrase syntaxGrammar.goal) :
    apart endsInLayout beginsWithLine (tree.leaves.map .token) = true ∧
      tree.leaves.count Token.stringStart.number = tree.leaves.count Token.stringEnd.number := by
  have checked := syntaxGrammar_regular
  simp only [Source.regular, Bool.and_eq_true] at checked
  exact ⟨(derived.spaced fun p production => (checked p production).1.1).1,
    derived.count_eq (fun p production => (checked p production).1.2) goal⟩

/-- A thread that reads a whole text has derived a tree of the tokens that it read. -/
theorem Reached.whole (reached : Reached text i th)
    (stepped : .whole tree ∈ th.step moduleTable.automaton moduleReader chain) :
    tree.leaves = word th.stack ∧ syntaxGrammar.Derived tree ∧
      tree.symbol = .phrase syntaxGrammar.goal := by
  have sound := step_sound (f := moduleFacts) moduleTable_mirrors moduleFacts_closed
    moduleReader_within chain reached.stands _ stepped
  refine ⟨?_, sound⟩
  obtain ⟨t, after, -, ⟨-, other⟩ | resolved⟩ := mem_step stepped
  · cases other
  · exact resolve_extends moduleReader_plainOnce after _ _ resolved

/-- A whole text is read within the bound on its tokens. -/
theorem Reached.early (reached : Reached text i th)
    (stepped : .whole tree ∈ th.step moduleTable.automaton moduleReader chain) :
    i < tokenBound text := by
  obtain ⟨leaves, derived, goal⟩ := reached.whole stepped
  have spaced := (Derived.regular derived goal).1
  rw [leaves] at spaced
  have few := layoutCount_le spaced
  have blocks := reached.blocks
  have balance := count_blocks_le (word th.stack)
  have tokens := reached.tokens
  have rounds := reached.rounds
  have within := reached.within
  unfold tokenBound
  omega

/-- The bound on the tokens of a module hides nothing: more rounds find the same tree. -/
theorem moduleTree?_eq (text : List Char) (more : Nat) :
    moduleTree? text = parse moduleTable.automaton moduleReader syntaxGrammar.productions.size
      (tokenBound text + more) (.start text) := by
  have late : ∀ i th tree, tokenBound text ≤ i → Reached text i th → .whole tree ∉
      th.step moduleTable.automaton moduleReader syntaxGrammar.productions.size :=
    fun i th tree past reached stepped => Nat.not_lt.2 past (reached.early stepped)
  refine (run_add (reached_kept text _) late _ more (i := 0) (by omega) ?_).symm
  intro th inside
  rw [List.mem_singleton.1 inside]
  exact .start text

end DefTally.Source
