import DefTally.Proofs.Source.Rounds
import DefTally.Proofs.Source.Series

/-!
# A line feed after a module

A module has the same tree with a line feed after its last line (`moduleTree?_concat`), unless it
ends in a backslash. The parser goes through both texts in step (`step_ended`). Only where nothing
but line ends is left and a string literal is open it may go astray, but then it reads no whole text
(`reached_lost`), because string literals are closed in every tree. The last section shows what the backslash does after
a blank (`moduleTree?_joined`).
-/

namespace DefTally.Source

open DefTally.Grammar

variable {text : List Char} {th th' : ModuleThread} {chain i : Nat} {tree : Tree}

/-- A thread that may still read a whole text. -/
def isLive (th : ModuleThread) : Bool := !th.place.stranded

theorem isLive_eq_false : isLive th = false ↔ th.place.stranded = true := by
  simp [isLive]

/-- Where a string literal is open and only line ends are left, no whole text is read any more. -/
theorem reached_lost (text : List Char) (chain : Nat) :
    Lost moduleTable.automaton moduleReader chain (Reached text) isLive where
  agree i t u reachedT reachedU same := by
    simp only [Thread.same, moduleReader, Bool.and_eq_true, beq_iff_eq] at same
    obtain ⟨⟨offset, layout⟩, -⟩ := same
    simp only [isLive, Place.stranded, reachedT.rest, reachedU.rest, offset, layout]
  whole i th tree reached dead stepped := by
    obtain ⟨leaves, derived, goal⟩ := reached.whole stepped
    have balanced := (Derived.regular derived goal).2
    have open_ := (Place.stranded_iff.1 (isLive_eq_false.1 dead)).1
    have some := List.length_pos_iff.2 open_
    have strings := reached.strings
    rw [leaves] at balanced
    omega
  onward i th th' reached dead stepped := by
    obtain ⟨t, passes⟩ := reached.passes stepped
    rw [isLive_eq_false] at dead ⊢
    exact Place.stranded_next reached.marked dead passes.read

theorem Reached.ended (reached : Reached text i th) :
    Reached (text ++ ['\n']) i (th.relocate Place.ended) where
  stands := reached.stands
  rest := by
    simp only [Thread.relocate, Place.ended, reached.rest,
      List.drop_append_of_le_length reached.within]
  within := by
    simp only [Thread.relocate, Place.ended, List.length_append]
    exact Nat.le_add_right_of_le reached.within
  marked := reached.marked
  strings := reached.strings
  blocks := reached.blocks
  tokens := reached.tokens
  rounds := reached.rounds

/-- A live thread steps alike with a line feed at the end of its text. -/
theorem step_ended (unjoined : Unjoined text) (reached : Reached text i th) (live : isLive th = true) :
    (th.relocate Place.ended).step moduleTable.automaton moduleReader chain =
      (th.step moduleTable.automaton moduleReader chain).map (.relocate Place.ended) := by
  have unjoined : Unjoined th.place.rest := reached.rest ▸ unjoined.drop _
  have alive : th.place.stranded = false := by simpa [isLive] using live
  have expects : expected (th.relocate Place.ended) = expected th := rfl
  rw [step_eq, step_eq, expects]
  rcases Place.next_ended (expected th) unjoined reached.marked alive with
    ⟨none, none'⟩ | ⟨t, after, after', read, read', either⟩
  · simp only [Thread.relocate, none, none', Option.elim_none, List.map_nil]
  · simp only [Thread.relocate, read, read', Option.elim_some]
    rcases either with rfl | rfl
    · have moved := resolve_relocate moduleTable.automaton moduleReader Place.ended after
        (chain * (th.stack.length + 1)) Token.endOfText.number th.stack
      have same := resolve_of_unshifted (f := moduleFacts) moduleTable_mirrors moduleFacts_closed
        (r := moduleReader) (number_lt .endOfText) rfl endOfText_not_mem after.ended after'
        (chain * (th.stack.length + 1)) reached.stands
      exact same.trans moved
    · split
      · rfl
      · exact resolve_relocate _ _ _ _ _ _ _

/-- A module has the same tree with a line feed after its last line, unless a backslash would join
that line to it. -/
theorem moduleTree?_concat (unjoined : Unjoined text) :
    moduleTree? (text ++ ['\n']) = moduleTree? text := by
  have longer : tokenBound (text ++ ['\n']) = tokenBound text + 4 := by
    simp only [tokenBound, List.length_append, List.length_singleton]
    omega
  have start : ∀ th ∈ [(⟨[], .start text⟩ : ModuleThread)], Reached text 0 th := by
    intro th inside
    rw [List.mem_singleton.1 inside]
    exact .start text
  rw [moduleTree?_eq text 4, moduleTree?, longer]
  exact run_relocate (reached_kept text _) (reached_lost text _) (reached_kept (text ++ ['\n']) _)
    (reached_lost (text ++ ['\n']) _) (fun i th => Reached.ended)
    (fun th => by simp [isLive, Thread.relocate]) (fun p q => rfl) (fun i th => step_ended unjoined)
    (tokenBound text + 4) start

/-! ## A backslash at the end -/

open DefTally.Text

variable {expects : Token → Bool} {l : Layout} {m : Token} {u : List Char} {offset : Nat}

/-- After a blank no lexeme but one, and text of a format specifier, matches a text. -/
def isAlone (m : Token) (u : List Char) : Bool :=
  lexemes.all fun y =>
    y.token == m || y.glued || y.token == .formatText || (y.text.longest u).isNone

theorem longest_of_isAlone (alone : isAlone m u = true) (plain : expects .formatText = false)
    {y : Lexeme} (among : y ∈ lexemes) (other : y.token ≠ m) (sought : isSought expects true y = true) :
    y.text.longest u = none := by
  have checked := List.all_eq_true.1 alone y among
  have loose : y.glued = false := by
    cases glued : y.glued with
    | false => rfl
    | true => simp [isSought, glued] at sought
  have unformatted := ne_formatText_of_isSought plain sought
  simpa [other, loose, unformatted] using checked

/-- A backslash after a blank joins its line to the next one, but to nothing at the end of the text. -/
theorem nextLexeme_joined (plain : expects .formatText = false) :
    nextLexeme expects [' ', '\\'] = none ∧
      nextLexeme expects [' ', '\\', '\n'] = some (.lineJoin, 3) := by
  have blank : ∀ c ∈ [' '], isBlank c = true := by
    intro c inside
    rw [List.mem_singleton.1 inside]
    decide
  have stop : isBlank '\\' = false := by decide
  constructor
  · have alone : isAlone .endOfText ['\\'] = true := by decide
    have none_ : bestMatch expects true ['\\'] = none := bestMatch_eq_none fun y among sought =>
      longest_of_isAlone alone plain among (lexemes_plain y among).2.1 sought
    rw [← List.singleton_append, nextLexeme_of_blanks blank stop]
    simp [none_]
  · have alone : isAlone .lineJoin ['\\', '\n'] = true := by decide
    have sought : isSought expects true ⟨.lineJoin, .literal "\\\n", 0, false, false⟩ = true := by
      simp [isSought, mayStand, Token.isIgnored]
    have joins : bestMatch expects true ['\\', '\n'] =
        some ⟨⟨.lineJoin, .literal "\\\n", 0, false, false⟩, 2⟩ :=
      bestMatch_sole (by simp [lexemes]) sought rfl fun y among other sought =>
        longest_of_isAlone alone plain among other sought
    rw [← List.singleton_append, nextLexeme_of_blanks blank stop]
    simp [joins, Match.readAs]

/-- The spot after a name alone on its line is between two statements. -/
def isAfterName (s : Spot) : Bool :=
  s.layout == .outermost && expectsAt s.view .newline && (s.shift .newline .outermost).any fun s' =>
    s'.isBetween afterStatements [] && s'.read == [.name, .newline]

set_option maxRecDepth 100000 in
theorem isAfterName_name : ((Spot.fresh []).take (.word [])).any isAfterName = true := by
  decide +kernel

/-- A blank and a backslash before the end of the text, or before the end of a line that is the last. -/
def joinedEnds : List (List Char) := [[' ', '\\'], [' ', '\\', '\n']]

/-- Where a line may end, it ends before the backslash. -/
theorem next_joined (joined : u ∈ joinedEnds) : Layout.outermost.next expects u =
    if expects .newline then some (.newline, 0, .outermost) else none := by
  simp only [joinedEnds, List.mem_cons, List.not_mem_nil, or_false] at joined
  rw [next_of_outermost rfl]
  rcases joined with rfl | rfl
  all_goals
    cases line : expects .newline <;>
      simp [Layout.nextOutside, Gap.measure, Gap.empty, Gap.grow, Layout.nextLine, Layout.outermost,
        Layout.width, Layout.nextOpening, Quote.opening, line]

variable {s : Spot}

/-- After a name the line ends before the backslash. -/
theorem goes_name (joined : u ∈ joinedEnds) : ∃ th s, Goes 2 ⟨[], .start ('x' :: u)⟩ th ∧
    At [] s u th ∧ s.isBetween afterStatements [] = true ∧ s.read = [.name, .newline] := by
  obtain ⟨s₁, taken, after⟩ := (Option.any_eq_true _ _).1 isAfterName_name
  simp only [isAfterName, Bool.and_eq_true, Option.any_eq_true, beq_iff_eq] at after
  obtain ⟨⟨layout, ends⟩, s₂, shifted, between, read⟩ := after
  obtain ⟨v, rfl⟩ : ∃ v, u = ' ' :: v := by
    simp only [joinedEnds, List.mem_cons, List.not_mem_nil, or_false] at joined
    rcases joined with rfl | rfl
    · exact ⟨_, rfl⟩
    · exact ⟨_, rfl⟩
  have start : At [] (Spot.fresh []) ([] ++ (['x'] ++ ' ' :: v)) ⟨[], .start ('x' :: ' ' :: v)⟩ :=
    ⟨.nil, rfl, rfl, by simp [word, Tree.leavesOf, Spot.fresh]⟩
  have clear : (Piece.mk [] ['x'] (.word [])).isClear ' ' = true := by decide
  obtain ⟨⟨th₁, n₁, goes₁, at₁, length₁⟩, -⟩ :=
    start.take (p := ⟨[], ['x'], .word []⟩) rfl clear rfl taken
  have next : th₁.place.next (expectsAt s₁.view) =
      some (.newline, ⟨' ' :: v, th₁.place.offset, .outermost⟩) := by
    rw [at₁.place, layout, Place.next, next_joined joined, if_pos ends]
    rfl
  obtain ⟨th₂, n₂, goes₂, at₂, length₂⟩ := at₁.shift next shifted rfl
  have two : n₂ + n₁ = 2 := by
    have none_ : (Spot.fresh []).read.length = 0 := rfl
    rw [read, List.length_cons, List.length_singleton] at length₂
    omega
  exact ⟨th₂, s₂, two ▸ goes₁.trans goes₂, at₂, between, read⟩

/-- Between two statements no line ends before the backslash, so that it is read as a lexeme. -/
theorem next_between (between : s.isBetween afterStatements [] = true) (joined : u ∈ joinedEnds) :
    s.layout = .outermost ∧ (Place.mk u offset s.layout).next (expectsAt s.view) =
      (nextLexeme (expectsAt s.view) u).map fun (t, n) =>
        (t, (Place.mk u offset s.layout).forward n s.layout) := by
  obtain ⟨layout, -, -, noLine, -, -, -⟩ := Spot.isBetween_iff.1 between
  have quiet : expectsAt s.view .newline = false := by
    cases line : expectsAt s.view .newline with
    | false => rfl
    | true => simp [layout, lineAhead, gapBefore, Gap.over, Gap.empty, Layout.nextLine,
        Layout.outermost, Layout.width, line] at noLine
  refine ⟨layout, ?_⟩
  rw [Place.next, layout, next_joined joined, quiet]
  rfl

/-- A module that ends in a blank and a backslash is malformed, and with one line feed more it is not. -/
theorem moduleTree?_joined : moduleTree? ['x', ' ', '\\'] = none ∧
    ∃ tree, moduleTree? ['x', ' ', '\\', '\n'] = some tree ∧ countDefinitions tree = 0 := by
  constructor
  · obtain ⟨th, s, goes, at_, between, -⟩ := goes_name (u := [' ', '\\']) List.mem_cons_self
    have bound : tokenBound ['x', ' ', '\\'] = 18 + 2 := rfl
    have stuck : th.step moduleTable.automaton moduleReader syntaxGrammar.productions.size = [] := by
      rw [step_eq, at_.expects, at_.place, (next_between between List.mem_cons_self).2,
        (nextLexeme_joined (Spot.isBetween_iff.1 between).plain).1]
      rfl
    rw [moduleTree?, parse, bound]
    exact (goes 18).trans (run_of_stuck stuck 18)
  · have joined : [' ', '\\', '\n'] ∈ joinedEnds := List.mem_cons_of_mem _ List.mem_cons_self
    obtain ⟨th, s, goes, at_, between, read⟩ := goes_name joined
    have bound : tokenBound ['x', ' ', '\\', '\n'] = 20 + 1 + 1 + 2 := rfl
    have ignored : th.step moduleTable.automaton moduleReader syntaxGrammar.productions.size =
        [.onward ⟨th.stack, ⟨[], th.place.offset + 3, s.layout⟩⟩] := by
      rw [step_eq, at_.expects, at_.place, (next_between between joined).2,
        (nextLexeme_joined (Spot.isBetween_iff.1 between).plain).2]
      rfl
    have ended : At [] s [] ⟨th.stack, ⟨[], th.place.offset + 3, s.layout⟩⟩ :=
      ⟨at_.shows, rfl, rfl, at_.word⟩
    obtain ⟨tree, leaves, done⟩ :=
      ended.ends between (blocks_checked.1 _ (List.mem_cons_of_mem _ List.mem_cons_self)).1
    have parsed : moduleTree? ['x', ' ', '\\', '\n'] = some tree := by
      rw [moduleTree?, parse, bound]
      exact (goes 22).trans ((run_of_onward ignored 21).trans (done 20))
    obtain ⟨derived, isModule⟩ := moduleTree?_derived parsed
    have tokens : tokensOf tree = [.name, .newline] := by
      rw [tokensOf, leaves, read]
      rfl
    refine ⟨tree, parsed, ?_⟩
    rw [Derived.countDefinitions_eq derived isModule, plainDefinitions_eq, tokens]
    rfl

end DefTally.Source
