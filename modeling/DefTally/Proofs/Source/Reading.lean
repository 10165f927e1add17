import DefTally.Proofs.Source.Lexing
import DefTally.Proofs.Source.Module

/-!
# Reading a script

A script is a text given lexeme by lexeme. `Spot.reads` works out what the parser of modules does
over a script from the kernels on its stack, the layout of lines and the outlines of the lexemes
alone, so that it can be evaluated. `At.reads` says that the parser does just that, whatever text
follows the script.
-/

namespace DefTally.Source

open DefTally.Grammar DefTally.Text

/-! ## What the parser does, worked out -/

/-- The tokens that can stand on top of a stack. -/
def expectsAt (v : View) (t : Token) : Bool := (moduleFacts.actionAt v t.number).possible

/-- How far the parser has come: its stack, the layout, and the tokens read. -/
structure Spot where
  view : View
  layout : Layout
  read : List Token

namespace Spot

/-- Makes the reductions that a token calls for and shifts it. -/
def shift (t : Token) (l : Layout) (s : Spot) : Option Spot :=
  if t.isIgnored then none
  else (moduleFacts.shiftAt t.number 40 s.view).map fun v => ⟨v, l, s.read ++ [t]⟩

/-- Reads the tokens of the layout that a gap gives. -/
def settle (g : Gap) : Nat → Spot → Option Spot
  | 0, _ => none
  | n + 1, s => match lineAhead (expectsAt s.view) s.layout g with
    | none => some s
    | some (t, _, l) => (s.shift t l).bind (settle g n)

/-- Reads a lexeme. -/
def take (x : Shape) (s : Spot) : Option Spot :=
  let t := x.token (expectsAt s.view)
  if expectsAt s.view t && !expectsAt s.view .formatText then s.shift t s.layout else none

/-- Reads lexemes, each with the blanks before it. -/
def reads : List (List Char × Shape) → Spot → Option Spot
  | [], s => some s
  | (blanks, x) :: rest, s =>
    ((settle (Gap.empty.over blanks) 8 s).bind (take x)).bind (reads rest)

end Spot

/-! ## Scripts -/

/-- What of a lexeme matters to the parser. -/
def Piece.outline (p : Piece) : List Char × Shape := (p.blanks, p.shape)

/-- The text of a script that goes on like this. -/
def written (tail : List Char) : List Piece → List Char
  | [] => tail
  | p :: ps => p.blanks ++ (p.text ++ written tail ps)

/-- Each lexeme of a script can be told from the character after it. -/
def isLegible (tail : List Char) : List Piece → Bool
  | [] => true
  | p :: ps => (written tail ps).head?.any p.isClear && isLegible tail ps

/-! ## The parser -/

/-- One thread leads to another in so many steps. -/
def Goes (n : Nat) (th th' : ModuleThread) : Prop :=
  ∀ fuel, run moduleTable.automaton moduleReader syntaxGrammar.productions.size (fuel + n) [th] =
    run moduleTable.automaton moduleReader syntaxGrammar.productions.size fuel [th']

/-- A thread has come as far as a spot, after some tokens and before a text. -/
structure At (before : List Token) (s : Spot) (text : List Char) (th : ModuleThread) : Prop where
  shows : Shows moduleFacts moduleTable.kernelOf th.stack s.view
  layout : th.place.layout = s.layout
  rest : th.place.rest = text
  word : word th.stack = (before ++ s.read).map Token.number

variable {before : List Token} {s s' : Spot} {text : List Char} {th th' th'' : ModuleThread}
  {t : Token} {l : Layout} {m n : Nat} {g : Gap} {x : Shape} {p : Piece} {after : Place}

theorem Goes.refl (th : ModuleThread) : Goes 0 th th := fun _ => rfl

theorem Goes.trans (first : Goes m th th') (second : Goes n th' th'') : Goes (n + m) th th'' := by
  intro fuel
  rw [← Nat.add_assoc, first, second]

/-- What the parser expects is what is worked out. -/
theorem At.expects (at_ : At before s text th) : expected th = expectsAt s.view := by
  funext t
  rw [expected, at_.shows.action moduleTable_traced (number_lt t)]
  rfl

theorem enough_productions : 100 ≤ syntaxGrammar.productions.size := by
  decide +kernel

/-- The bound on reductions in a row is far from what a script needs. -/
theorem enough_fuel (height : Nat) : 100 ≤ syntaxGrammar.productions.size * (height + 1) :=
  Nat.le_trans enough_productions (Nat.le_mul_of_pos_right _ (Nat.succ_pos height))

theorem At.place (at_ : At before s text th) : th.place = ⟨text, th.place.offset, s.layout⟩ := by
  rw [← at_.rest, ← at_.layout]

/-- A token that is not ignored is resolved. -/
theorem At.step (at_ : At before s text th)
    (next : th.place.next (expectsAt s.view) = some (t, after)) (heeded : t.isIgnored = false) :
    th.step moduleTable.automaton moduleReader syntaxGrammar.productions.size =
      resolve moduleTable.automaton moduleReader after
        (syntaxGrammar.productions.size * (th.stack.length + 1)) t.number th.stack := by
  rw [step_eq, at_.expects, next, Option.elim_some, heeded, if_neg Bool.false_ne_true]

/-- A thread goes on to a spot before a text, in one step for each token. -/
def Reaches (before : List Token) (th : ModuleThread) (s s' : Spot) (text : List Char) : Prop :=
  ∃ th' n, Goes n th th' ∧ At before s' text th' ∧ s'.read.length = s.read.length + n

theorem Reaches.refl (at_ : At before s text th) : Reaches before th s s text :=
  ⟨th, 0, .refl th, at_, rfl⟩

/-- A token is read and shifted as worked out. -/
theorem At.shift (at_ : At before s text th)
    (next : th.place.next (expectsAt s.view) = some (t, after)) (shifted : s.shift t l = some s')
    (layout : after.layout = l) : Reaches before th s s' after.rest := by
  unfold Spot.shift at shifted
  split at shifted
  · cases shifted
  · next heeded =>
    obtain ⟨v, viewed, rfl⟩ := Option.map_eq_some_iff.1 shifted
    obtain ⟨stack, shows, word, resolved⟩ := resolve_shiftAt (r := moduleReader)
      moduleTable_traced (number_lt t) 40 at_.shows viewed
    have enough := enough_fuel th.stack.length
    refine ⟨⟨stack, after⟩, 1, ?_, ⟨shows, layout, rfl, ?_⟩, by simp⟩
    · apply run_of_onward
      rw [at_.step next (Bool.not_eq_true _ ▸ heeded)]
      exact resolved after _ (by omega)
    · rw [word, at_.word]
      simp

/-! ## Gaps and lexemes -/

theorem shift_layout (shifted : s.shift t l = some s') : s'.layout = l := by
  unfold Spot.shift at shifted
  split at shifted
  · cases shifted
  · obtain ⟨v, -, rfl⟩ := Option.map_eq_some_iff.1 shifted
    rfl

theorem lineAhead_quotes {expects : Token → Bool} {l' : Layout} (outside : l.quotes = [])
    (line : lineAhead expects l g = some (t, n, l')) : l'.quotes = [] := by
  unfold lineAhead at line
  split at line
  · rcases nextLine_cases line with ⟨-, -, rfl⟩ | ⟨-, -, rfl, -⟩ | ⟨-, -, rfl⟩
    · simp [Layout.remember, outside]
    · exact outside
    · exact outside
  · cases line

/-- The tokens of the layout are read before anything else, and then the gap gives no more. -/
theorem At.settle {blanks : List Char} (gap : isGap blanks = true) (goes : goesOn text = true) (n : Nat) :
    ∀ {s th}, At before s (blanks ++ text) th → s.layout.quotes = [] →
      s.settle (gapBefore blanks text) n = some s' →
      Reaches before th s s' (blanks ++ text) ∧ s'.layout.quotes = [] ∧
        lineAhead (expectsAt s'.view) s'.layout (gapBefore blanks text) = none := by
  induction n with
  | zero => exact fun _ _ settled => by simp [Spot.settle] at settled
  | succ n ih =>
    intro s th at_ outside settled
    rw [Spot.settle] at settled
    split at settled
    · next noLine =>
      cases settled
      exact ⟨.refl at_, outside, noLine⟩
    · next t _ l line =>
      obtain ⟨s₁, shifted, later⟩ := Option.bind_eq_some_iff.1 settled
      have next : th.place.next (expectsAt s.view) =
          some (t, ⟨blanks ++ text, th.place.offset, l⟩) := by
        rw [at_.place]
        exact Place.next_line outside gap goes line
      obtain ⟨th₁, n₁, goes₁, at₁, length₁⟩ := at_.shift next shifted rfl
      have outside₁ : s₁.layout.quotes = [] := by
        rw [shift_layout shifted]
        exact lineAhead_quotes outside line
      obtain ⟨⟨th₂, n₂, goes₂, at₂, length₂⟩, outside₂, noLine⟩ := ih at₁ outside₁ later
      exact ⟨⟨th₂, n₂ + n₁, goes₁.trans goes₂, at₂, by omega⟩, outside₂, noLine⟩

/-- A lexeme is read where the gap before it gives no token of the layout. -/
theorem At.take {c : Char} {v : List Char} (at_ : At before s (p.blanks ++ (p.text ++ c :: v)) th)
    (outside : s.layout.quotes = []) (clear : p.isClear c = true)
    (noLine : lineAhead (expectsAt s.view) s.layout (Gap.empty.over p.blanks) = none)
    (taken : s.take p.shape = some s') :
    Reaches before th s s' (c :: v) ∧ s'.layout.quotes = [] := by
  unfold Spot.take at taken
  dsimp only at taken
  split at taken
  · next may =>
    simp only [Bool.and_eq_true, Bool.not_eq_true'] at may
    have next : th.place.next (expectsAt s.view) = some (p.shape.token (expectsAt s.view),
        ⟨c :: v, th.place.offset + (p.blanks.length + p.text.length), s.layout⟩) := by
      rw [at_.place]
      exact Place.next_lexeme outside clear may.2 may.1 noLine v
    refine ⟨at_.shift next taken rfl, ?_⟩
    rw [shift_layout taken]
    exact outside
  · cases taken

theorem written_script_append (tail : List Char) (a b : List Piece) :
    written tail (a ++ b) = written (written tail b) a := by
  induction a with
  | nil => rfl
  | cons p ps ih => rw [List.cons_append, written, written, ih]

theorem isLegible_append (tail : List Char) (a b : List Piece) :
    isLegible tail (a ++ b) = (isLegible (written tail b) a && isLegible tail b) := by
  induction a with
  | nil => rfl
  | cons p ps ih =>
    rw [List.cons_append, isLegible, isLegible, ih, written_script_append, Bool.and_assoc]

theorem goesOn_of_isClear {c : Char} (clear : p.isClear c = true) (v : List Char) :
    goesOn (p.text ++ v) = true ∧ gapBefore p.blanks (p.text ++ v) = Gap.empty.over p.blanks := by
  obtain ⟨-, goes, unopened, -⟩ := Piece.isClear_iff.1 clear
  obtain ⟨d, ds, written⟩ := exists_cons_of_opensNone unopened
  rw [written] at goes ⊢
  exact ⟨goes, rfl⟩

/-- Every lexeme takes a character at least. -/
theorem length_le_of_isLegible {tail : List Char} {ps : List Piece}
    (legible : isLegible tail ps = true) : ps.length ≤ (written tail ps).length := by
  induction ps with
  | nil => exact Nat.zero_le _
  | cons p rest ih =>
    simp only [isLegible, Bool.and_eq_true, Option.any_eq_true] at legible
    obtain ⟨⟨c, -, clear⟩, legible⟩ := legible
    have later := ih legible
    obtain ⟨d, ds, text⟩ := exists_cons_of_opensNone (Piece.isClear_iff.1 clear).unopened
    rw [written, text, List.length_cons, List.length_append, List.length_append, List.length_cons]
    omega

/-- The parser reads a script as worked out, whatever text follows it. -/
theorem At.reads {tail v : List Char} {ps : List Piece} :
    ∀ {s th}, At before s (written tail ps ++ v) th → s.layout.quotes = [] →
      isLegible tail ps = true → s.reads (ps.map Piece.outline) = some s' →
      Reaches before th s s' (tail ++ v) ∧ s'.layout.quotes = [] := by
  induction ps with
  | nil =>
    intro s th at_ outside _ read
    cases read
    exact ⟨.refl at_, outside⟩
  | cons p rest ih =>
    intro s th at_ outside legible read
    simp only [isLegible, Bool.and_eq_true, Option.any_eq_true] at legible
    obtain ⟨⟨c, head, clear⟩, legible⟩ := legible
    obtain ⟨cs, goesOn_⟩ : ∃ cs, written tail rest ++ v = c :: cs := by
      cases text : written tail rest with
      | nil => simp [text] at head
      | cons d ds =>
        rw [text, List.head?_cons, Option.some.injEq] at head
        exact ⟨ds ++ v, by rw [head, List.cons_append]⟩
    obtain ⟨s₂, read, later⟩ := Option.bind_eq_some_iff.1 read
    obtain ⟨s₁, settled, taken⟩ := Option.bind_eq_some_iff.1 read
    have start : At before s (p.blanks ++ (p.text ++ c :: cs)) th := by
      rw [← goesOn_]
      simpa [written] using at_
    obtain ⟨goes, gapped⟩ := goesOn_of_isClear clear (c :: cs)
    have gap := (Piece.isClear_iff.1 clear).gap
    obtain ⟨⟨th₁, n₁, goes₁, at₁, length₁⟩, outside₁, noLine⟩ :=
      start.settle gap goes 8 outside (gapped ▸ settled)
    obtain ⟨⟨th₂, n₂, goes₂, at₂, length₂⟩, outside₂⟩ :=
      at₁.take outside₁ clear (gapped ▸ noLine) taken
    rw [← goesOn_] at at₂
    obtain ⟨⟨th₃, n₃, goes₃, at₃, length₃⟩, outside₃⟩ := ih at₂ outside₂ legible later
    exact ⟨⟨th₃, n₃ + (n₂ + n₁), (goes₁.trans goes₂).trans goes₃, at₃, by omega⟩, outside₃⟩

/-! ## Between two statements -/

/-- The tokens that begin the statements of a script. -/
def openers : List Token :=
  [.kwDef, .at, .kwAsync, .kwClass, .kwIf, .kwFor, .kwWhile, .kwWith, .kwTry, .name]

/-- What may come after a statement: another one, or the end of the text. -/
def sequels : List Nat := (.endOfText :: openers).map Token.number

/-- The token that a lexeme is read as where everything is expected. -/
def Shape.opener (x : Shape) : Token := x.token fun _ => true

namespace Spot

/-- Whatever comes after the gap, no token of the layout is left in it, and every sequel has the
parser make the same reductions, after which the stack is `base`. -/
def isBetween (base : View) (blanks : List Char) (s : Spot) : Bool :=
  s.layout == .outermost && isGap blanks &&
    (lineAhead (expectsAt s.view) s.layout (Gap.empty.over blanks)).isNone &&
    (lineAhead (expectsAt s.view) s.layout (gapBefore blanks [])).isNone &&
    (Token.endOfText :: openers).all (expectsAt s.view) && !expectsAt s.view .formatText &&
    moduleFacts.reduceAll sequels 30 s.view == base

/-- What it takes for a spot to be between two statements. -/
structure Between (base : View) (blanks : List Char) (s : Spot) : Prop where
  outermost : s.layout = .outermost
  gap : isGap blanks = true
  noLine : lineAhead (expectsAt s.view) s.layout (Gap.empty.over blanks) = none
  noLineAtEnd : lineAhead (expectsAt s.view) s.layout (gapBefore blanks []) = none
  expects : ∀ t ∈ Token.endOfText :: openers, expectsAt s.view t = true
  plain : expectsAt s.view .formatText = false
  reduces : moduleFacts.reduceAll sequels 30 s.view = base

theorem isBetween_iff {base : View} {blanks : List Char} {s : Spot} :
    s.isBetween base blanks = true ↔ s.Between base blanks := by
  simp only [isBetween, Bool.and_eq_true, beq_iff_eq, Option.isNone_iff_eq_none, List.all_eq_true,
    Bool.not_eq_true']
  constructor
  · exact fun ⟨⟨⟨⟨⟨⟨outermost, gap⟩, noLine⟩, noLineAtEnd⟩, expects⟩, plain⟩, reduces⟩ =>
      ⟨outermost, gap, noLine, noLineAtEnd, expects, plain, reduces⟩
  · exact fun b =>
      ⟨⟨⟨⟨⟨⟨b.outermost, b.gap⟩, b.noLine⟩, b.noLineAtEnd⟩, b.expects⟩, b.plain⟩, b.reduces⟩

theorem Between.outside {base : View} {blanks : List Char} {s : Spot} (between : s.Between base blanks) :
    s.layout.quotes = [] := by
  rw [between.outermost]
  rfl

/-- Nothing is read since the stack was `base`. -/
def fresh (base : View) : Spot := ⟨base, .outermost, []⟩

/-- Reads a script from its first lexeme on. -/
def begin (script : List (List Char × Shape)) (s : Spot) : Option Spot :=
  match script with
  | [] => none
  | (_, x) :: rest => if openers.contains x.opener then
      (s.shift x.opener .outermost).bind (reads rest)
    else none

end Spot

/-- The stack makes a whole text. -/
def isWhole (base : View) : Bool :=
  match moduleFacts.reduceAll [Token.endOfText.number] 30 base with
  | [entry] => moduleFacts.actionAt [entry] Token.endOfText.number == ⟨[moduleFacts.whole], false⟩
  | _ => false

theorem Shape.token_eq_opener {expects : Token → Bool} (h : expects x.opener = true) :
    x.token expects = x.opener := by
  cases x with
  | mark t => rfl
  | word ks =>
    cases ks with
    | nil => rfl
    | cons k rest =>
      have head : expects k = true := h
      simp [Shape.token, Shape.opener, head]

theorem opener_mem_sequels (h : t ∈ openers) : t.number ∈ sequels :=
  List.mem_map_of_mem (List.mem_cons_of_mem _ h)

theorem endOfText_mem_sequels : Token.endOfText.number ∈ sequels :=
  List.mem_map_of_mem List.mem_cons_self

/-- The first lexeme of a statement is read after any other statement. -/
theorem At.opens {base : View} {blanks v : List Char} {c : Char}
    (at_ : At before s (blanks ++ (p.text ++ c :: v)) th) (between : s.isBetween base blanks = true)
    (clear : p.isClear c = true) (opens : p.shape.opener ∈ openers)
    (shifted : (Spot.fresh base).shift p.shape.opener .outermost = some s') :
    ∃ th', Goes 1 th th' ∧ At (before ++ s.read) s' (c :: v) th' ∧ s'.read.length = 1 := by
  have between := Spot.isBetween_iff.1 between
  have may := between.expects _ (List.mem_cons_of_mem _ opens)
  have token : p.shape.token (expectsAt s.view) = p.shape.opener := Shape.token_eq_opener may
  -- the lexeme stands after the gap, whatever blanks it has in its own script
  have clear' : Piece.isClear { p with blanks } c = true :=
    Piece.isClear_iff.2 { Piece.isClear_iff.1 clear with gap := between.gap }
  have next : th.place.next (expectsAt s.view) = some (p.shape.opener,
      ⟨c :: v, th.place.offset + (blanks.length + p.text.length), s.layout⟩) := by
    rw [at_.place, ← token]
    exact Place.next_lexeme between.outside clear' between.plain (by rw [token]; exact may)
      between.noLine v
  unfold Spot.shift at shifted
  split at shifted
  · cases shifted
  · next heeded =>
    obtain ⟨view, viewed, rfl⟩ := Option.map_eq_some_iff.1 shifted
    obtain ⟨stack₁, m, shows₁, word₁, few, resolved₁⟩ := resolve_reduceAll (r := moduleReader)
      moduleTable_traced (opener_mem_sequels opens) (number_lt _) 30 at_.shows
    rw [between.reduces] at shows₁
    obtain ⟨stack₂, shows₂, word₂, resolved₂⟩ := resolve_shiftAt (r := moduleReader)
      moduleTable_traced (number_lt _) 40 shows₁ viewed
    have enough := enough_fuel th.stack.length
    obtain ⟨fuel, hFuel⟩ : ∃ fuel,
        syntaxGrammar.productions.size * (th.stack.length + 1) = fuel + m :=
      ⟨syntaxGrammar.productions.size * (th.stack.length + 1) - m, by omega⟩
    refine ⟨⟨stack₂, c :: v, th.place.offset + (blanks.length + p.text.length), s.layout⟩, ?_,
      ⟨shows₂, between.outermost, rfl, ?_⟩, rfl⟩
    · apply run_of_onward
      rw [at_.step next (Bool.not_eq_true _ ▸ heeded), hFuel, resolved₁]
      exact resolved₂ _ _ (by omega)
    · rw [word₂, word₁, at_.word]
      simp [Spot.fresh]

/-- At the end of the text the parser has the tree of all that it read. -/
theorem At.ends {base : View} {blanks : List Char} (at_ : At before s blanks th)
    (between : s.isBetween base blanks = true) (whole : isWhole base = true) :
    ∃ tree : Tree, tree.leaves = (before ++ s.read).map Token.number ∧ ∀ fuel,
      run moduleTable.automaton moduleReader syntaxGrammar.productions.size (fuel + 1) [th] =
        some tree := by
  have between := Spot.isBetween_iff.1 between
  have next : th.place.next (expectsAt s.view) =
      some (.endOfText, ⟨[], th.place.offset + blanks.length, s.layout⟩) := by
    rw [at_.place]
    exact Place.next_end between.outside between.gap (between.expects _ List.mem_cons_self)
      between.noLineAtEnd
  obtain ⟨stack₁, m₁, shows₁, word₁, few₁, resolved₁⟩ := resolve_reduceAll (r := moduleReader)
    moduleTable_traced endOfText_mem_sequels (number_lt .endOfText) 30 at_.shows
  rw [between.reduces] at shows₁
  obtain ⟨stack₂, m₂, shows₂, word₂, few₂, resolved₂⟩ := resolve_reduceAll (r := moduleReader)
    moduleTable_traced List.mem_cons_self (number_lt .endOfText) 30 shows₁
  unfold isWhole at whole
  split at whole
  · next entry reduced =>
    rw [reduced] at shows₂
    obtain ⟨tree, leaves, resolved₃⟩ := resolve_whole (r := moduleReader) moduleTable_traced
      shows₂ (number_lt .endOfText) (beq_iff_eq.1 whole)
    refine ⟨tree, by rw [leaves, word₂, word₁, at_.word], fun fuel => run_of_whole ?_ fuel⟩
    have enough := enough_fuel th.stack.length
    obtain ⟨fuel, hFuel⟩ : ∃ fuel,
        syntaxGrammar.productions.size * (th.stack.length + 1) = fuel + 1 + m₂ + m₁ :=
      ⟨syntaxGrammar.productions.size * (th.stack.length + 1) - 1 - m₂ - m₁, by omega⟩
    rw [at_.step next rfl, hFuel, resolved₁, resolved₂]
    exact resolved₃ _ _
  · cases whole

/-- The parser gives up where a mark is written that may not stand. -/
theorem At.stuck {c : Char} {v : List Char} (at_ : At before s (p.blanks ++ (p.text ++ c :: v)) th)
    (outside : s.layout.quotes = []) (clear : p.isClear c = true) (mark : p.shape = .mark t)
    (plain : expectsAt s.view .formatText = false) (barred : mayStand (expectsAt s.view) t = false)
    (noLine : lineAhead (expectsAt s.view) s.layout (Gap.empty.over p.blanks) = none) (fuel : Nat) :
    run moduleTable.automaton moduleReader syntaxGrammar.productions.size fuel [th] = none := by
  have next : th.place.next (expectsAt s.view) = none := by
    rw [at_.place]
    exact Place.next_stuck outside clear mark plain barred noLine v
  apply run_of_stuck
  rw [step_eq, at_.expects, next, Option.elim_none]

end DefTally.Source
