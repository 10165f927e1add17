import DefTally.Proofs.Text.Longest
import DefTally.Source.Module

/-!
# Reading one token

What the reader of modules finds where a token is written out. A lexeme is found if no other
lexeme matches there at all, which can be told from its text and one character more
(`bestMatch_mark`, `bestMatch_word`). A token of the layout is found in the blanks before the next
lexeme (`Place.next_line`), and if there is none the lexeme itself is read (`Place.next_lexeme`).
Blanks are line feeds and spaces here, and a lexeme begins with an ordinary character: no blank,
and no mark of a comment, a joined line or a string literal.
-/

namespace DefTally.Source

open DefTally.Text

variable {expects : Token → Bool} {afterBlank : Bool} {text u v w blanks : List Char}
  {l l' : Layout} {x : Lexeme} {m t : Token} {c : Char} {n offset : Nat} {g : Gap}

/-! ## The best match -/

/-- The lexeme is looked for. -/
def isSought (expects : Token → Bool) (afterBlank : Bool) (x : Lexeme) : Bool :=
  !((x.glued && afterBlank) || !mayStand expects x.token)

theorem isSought_iff : isSought expects afterBlank x = true ↔
    ¬((x.glued && afterBlank) || !mayStand expects x.token) = true := by
  rw [isSought, Bool.not_eq_true', Bool.not_eq_true]

theorem foldl_fixed {α β : Type} {op : β → α → β} {items : List α} (b : β)
    (fixed : ∀ a ∈ items, op b a = b) : items.foldl op b = b := by
  induction items with
  | nil => rfl
  | cons a rest ih =>
    rw [List.foldl_cons, fixed a List.mem_cons_self]
    exact ih fun a' inside => fixed a' (List.mem_cons_of_mem _ inside)

/-- Nothing is found where no lexeme that is looked for matches. -/
theorem bestMatch_eq_none (others : ∀ y ∈ lexemes, isSought expects afterBlank y = true →
    y.text.longest text = none) : bestMatch expects afterBlank text = none := by
  apply foldl_fixed
  intro y inside
  split
  · rfl
  · next seeks => rw [others y inside (isSought_iff.2 seeks)]

theorem lexemes_distinct : (lexemes.map Lexeme.token).Nodup := by
  decide

/-- The only lexeme that matches is found. -/
theorem bestMatch_sole (among : x ∈ lexemes) (sought : isSought expects afterBlank x = true)
    (found : x.text.longest text = some n)
    (others : ∀ y ∈ lexemes, y.token ≠ x.token → isSought expects afterBlank y = true →
      y.text.longest text = none) :
    bestMatch expects afterBlank text = some ⟨x, n⟩ := by
  obtain ⟨before, after, split_⟩ := List.append_of_mem among
  have distinct := lexemes_distinct
  rw [split_, List.map_append, List.map_cons, List.nodup_append] at distinct
  obtain ⟨-, apartAfter, apart⟩ := distinct
  have first : ∀ y ∈ before, y.token ≠ x.token := fun y inside =>
    apart _ (List.mem_map_of_mem inside) _ List.mem_cons_self
  have later : ∀ y ∈ after, y.token ≠ x.token := by
    intro y inside same
    exact (List.nodup_cons.1 apartAfter).1 (same ▸ List.mem_map_of_mem inside)
  unfold bestMatch
  rw [split_, List.foldl_append, List.foldl_cons]
  rw [foldl_fixed none, foldl_fixed]
  · have seeks : ((x.glued && afterBlank) || !mayStand expects x.token) = false := by
      simpa only [isSought, Bool.not_eq_true'] using sought
    simp only [seeks, Bool.false_eq_true, if_false, found]
    rfl
  · intro y inside
    split
    · rfl
    · next seeks =>
      rw [others y (by simp [split_, inside]) (later y inside) (isSought_iff.2 seeks)]
  · intro y inside
    split
    · rfl
    · next seeks =>
      rw [others y (by simp [split_, inside]) (first y inside) (isSought_iff.2 seeks)]

/-! ## Texts that only one lexeme matches -/

/-- No lexeme but one, and text of a format specifier, matches a text that goes on like this. -/
def isSole (m : Token) (u : List Char) : Bool :=
  lexemes.all fun y => y.token == m || y.token == .formatText ||
    (y.text.dies u && (y.text.longest u).isNone)

/-- A lexeme of so many characters, and no other, matches a text that goes on like this. -/
def isMark (m : Token) (u : List Char) (n : Nat) : Bool :=
  isSole m u && lexemes.any fun y =>
    y.token == m && !y.glued && y.text.dies u && y.text.longest u == some n

/-- Text of a format specifier is not sought where it is not expected. -/
theorem ne_formatText_of_isSought (plain : expects .formatText = false) {y : Lexeme}
    (sought : isSought expects afterBlank y = true) : y.token ≠ .formatText := by
  intro same
  have formatted : mayStand expects .formatText = false := by
    simp [mayStand, plain, Token.isIgnored]
  simp [isSought, same, formatted] at sought

theorem longest_of_isSole (sole : isSole m u = true) (plain : expects .formatText = false)
    {y : Lexeme} (among : y ∈ lexemes) (other : y.token ≠ m)
    (sought : isSought expects afterBlank y = true) (v : List Char) :
    y.text.longest (u ++ v) = none := by
  have checked := List.all_eq_true.1 sole y among
  have unformatted := ne_formatText_of_isSought plain sought
  simp only [Bool.or_eq_true, beq_iff_eq, Bool.and_eq_true, Option.isNone_iff_eq_none] at checked
  rcases checked with (same | same) | ⟨dies, none⟩
  · exact absurd same other
  · exact absurd same unformatted
  · rw [Pattern.longest_append dies, none]

/-- A mark is found if it may stand, whatever else is expected. -/
theorem bestMatch_mark (mark : isMark m u n = true) (plain : expects .formatText = false)
    (stands : mayStand expects m = true) (v : List Char) :
    ∃ x, x.token = m ∧ bestMatch expects afterBlank (u ++ v) = some ⟨x, n⟩ := by
  simp only [isMark, Bool.and_eq_true, List.any_eq_true, beq_iff_eq, Bool.not_eq_true'] at mark
  obtain ⟨sole, x, among, ⟨⟨⟨rfl, unglued⟩, dies⟩, found⟩⟩ := mark
  refine ⟨x, rfl, bestMatch_sole among ?_ ?_ ?_⟩
  · simp [isSought, unglued, stands]
  · rw [Pattern.longest_append dies, found]
  · exact fun y inside other sought => longest_of_isSole sole plain inside other sought v

theorem isSole_append (sole : isSole m u = true) (v : List Char) : isSole m (u ++ v) = true := by
  apply List.all_eq_true.2
  intro y among
  have checked := List.all_eq_true.1 sole y among
  simp only [Bool.or_eq_true, Bool.and_eq_true] at checked ⊢
  rcases checked with same | ⟨dies, none⟩
  · exact .inl same
  · exact .inr ⟨Pattern.dies_append dies v, by rw [Pattern.longest_append dies]; exact none⟩

/-- A word up to the character after it, and nothing else. -/
def isWord (w : List Char) (following : Char) : Bool :=
  w.head?.any Identifier.isStart && w.all Identifier.isContinue &&
    !Identifier.isContinue following && isSole .name (w ++ [following])

/-- A word is found up to its end if a name or a keyword may stand. -/
theorem bestMatch_word (word : isWord w c = true) (plain : expects .formatText = false)
    (stands : mayStand expects .name = true) (v : List Char) :
    ∃ x, x.token = .name ∧ bestMatch expects afterBlank (w ++ c :: v) = some ⟨x, w.length⟩ := by
  match w, word with
  | first :: others, word =>
    simp only [isWord, List.head?_cons, Option.any_some, Bool.and_eq_true, List.all_eq_true,
      Bool.not_eq_true'] at word
    obtain ⟨⟨⟨starts, letters⟩, stop⟩, sole⟩ := word
    refine ⟨⟨.name, Lexeme.word, 0, false, false⟩, rfl, bestMatch_sole ?_ ?_ ?_ ?_⟩
    · exact List.mem_append_left _ List.mem_cons_self
    · simp [isSought, stands]
    · have begins : Lexeme.word.after first = Pattern.star (.char Identifier.isContinue) := by
        simp [Lexeme.word, Pattern.chain, Pattern.after, Pattern.takesBlank, Pattern.followedBy, starts]
      have later : ∀ d ∈ others, Identifier.isContinue d = true := fun d inside =>
        letters d (List.mem_cons_of_mem _ inside)
      rw [Pattern.longest, List.cons_append, Pattern.longestFrom, begins]
      dsimp only
      rw [Pattern.longestFrom_star _ _ later stop, List.length_cons, Nat.add_comm]
    · intro y inside other sought
      have missed := longest_of_isSole sole plain inside other sought v
      rw [List.append_assoc, List.singleton_append] at missed
      exact missed

/-- The keywords that are spelled like a word. -/
def rivals (w : List Char) : List Token := (keywords.filter fun k => k.2 == w).map (·.1)

theorem keywordOf?_eq (expects : Token → Bool) (w : List Char) :
    keywordOf? expects w = (rivals w).find? expects := by
  simp only [keywordOf?, rivals, List.find?_map, List.find?_filter]
  congr 2
  funext k
  by_cases h : k.2 = w <;> simp [h]

/-- A word may stand where it is a name that may stand, or a keyword that may. -/
theorem mayStand_word (h : expects (((rivals w).find? expects).getD .name) = true) :
    mayStand expects .name = true := by
  cases found : (rivals w).find? expects with
  | none =>
    rw [found] at h
    simp only [Option.getD_none] at h
    simp [mayStand, h]
  | some t =>
    have inside := List.mem_of_find?_eq_some found
    have asked := List.find?_some found
    obtain ⟨k, among, rfl⟩ := List.mem_map.1 inside
    have anyKeyword : keywords.any (fun k => expects k.1) = true :=
      List.any_eq_true.2 ⟨k, (List.mem_filter.1 among).1, asked⟩
    simp [mayStand, anyKeyword]

/-! ## Blanks -/

/-- Line feeds and spaces only. -/
def isGap (blanks : List Char) : Bool := blanks.all fun c => c == '\n' || c == ' '

/-- A character that may begin a lexeme that is neither a comment nor a string literal. -/
def isOrdinary (c : Char) : Bool :=
  !isBlank c && c != '#' && c != '\\' && !Layout.atQuotationMark [c]

/-- The text ends, or goes on with an ordinary character. -/
def goesOn : List Char → Bool
  | [] => true
  | c :: _ => isOrdinary c

/-- The gap with more line feeds and spaces. -/
def Gap.over : Gap → List Char → Gap
  | g, [] => g
  | g, c :: cs => if c = '\n' then g.breakLine.over cs else (g.grow (g.width + 1) 1).over cs

/-- The gap that blanks are before a text. The end of the text is the end of a line. -/
def gapBefore (blanks : List Char) : List Char → Gap
  | [] => { Gap.empty.over blanks with newLine := true, width := 0 }
  | _ :: _ => Gap.empty.over blanks

theorem measure_over (heeded : Bool) (g : Gap) (gap : isGap blanks = true) (text : List Char) :
    g.measure heeded false (blanks ++ text) = (g.over blanks).measure heeded false text := by
  induction blanks generalizing g with
  | nil => rfl
  | cons c cs ih =>
    simp only [isGap, List.all_cons, Bool.and_eq_true, Bool.or_eq_true, beq_iff_eq] at gap
    obtain ⟨isLineOrSpace, others⟩ := gap
    rw [List.cons_append, Gap.over]
    rw [Gap.measure.eq_def]
    rcases isLineOrSpace with rfl | rfl
    · exact ih g.breakLine others
    · exact ih (g.grow (g.width + 1) 1) others

theorem measure_gap (heeded : Bool) (gap : isGap blanks = true) (goes : goesOn text = true) :
    Gap.empty.measure heeded false (blanks ++ text) = some (gapBefore blanks text, text) := by
  rw [measure_over heeded _ gap]
  cases text with
  | nil => rfl
  | cons c cs =>
    simp only [goesOn, isOrdinary, isBlank, Bool.and_eq_true, Bool.not_eq_true', Bool.or_eq_false_iff,
      bne_iff_ne, beq_eq_false_iff_ne] at goes
    obtain ⟨⟨⟨⟨⟨⟨⟨noSpace, noBlank⟩, -⟩, -⟩, -⟩, noComment⟩, noJoin⟩, -⟩ := goes
    have apart : ∀ d : Char, ('\t' ≤ d && d ≤ '\r') = true → c ≠ d := by
      rintro d within rfl
      rw [within] at noBlank
      cases noBlank
    have noLine := apart '\n' (by decide)
    have noFeed := apart '\x0c' (by decide)
    have noReturn := apart '\r' (by decide)
    have noTab := apart '\t' (by decide)
    unfold Gap.measure
    simp [noSpace, noLine, noFeed, noReturn, noTab, noComment, noJoin, gapBefore]

/-! ## Tokens of the layout -/

/-- The tokens of the layout: a block is opened or closed, or the line ends. -/
theorem nextLine_cases (line : l.nextLine expects g text = some (t, n, l')) :
    t = .indent ∧ n = 0 ∧ l' = Layout.remember { l with indents := g.width % 256 :: l.indents } ∨
      t = .dedent ∧ n = 0 ∧ l' = { l with indents := l.indents.tail } ∧ g.width < l.width ∨
      t = .newline ∧ n = 0 ∧ l' = l := by
  simp only [Layout.nextLine] at line
  cases comment : g.comment <;> simp only [comment] at line
  all_goals
    split at line
    · cases line
      exact .inl ⟨rfl, rfl, rfl⟩
    · split at line
      · next closes =>
        cases line
        simp only [Bool.and_eq_true, decide_eq_true_eq] at closes
        exact .inr (.inl ⟨rfl, rfl, rfl, closes.1.1.2⟩)
      · split at line
        · cases line
          exact .inr (.inr ⟨rfl, rfl, rfl⟩)
        · cases line

/-- The token of the layout that a gap before an ordinary character gives. -/
def lineAhead (expects : Token → Bool) (l : Layout) (g : Gap) : Option (Token × Nat × Layout) :=
  if g.newLine then l.nextLine expects g [] else none

/-- No string literal begins with the text, whatever follows. -/
def opensNone : List Char → Bool
  | [] => false
  | c :: cs => if ['f', 'F', 'r', 'R', 'b', 'B', 'u', 'U'].contains c then opensNone cs
    else !Layout.atQuotationMark [c]

theorem nextLine_of_goesOn (goes : goesOn text = true) :
    l.nextLine expects g text = l.nextLine expects g [] := by
  cases text with
  | nil => rfl
  | cons c cs =>
    simp only [goesOn, isOrdinary, Bool.and_eq_true, Bool.not_eq_true'] at goes
    have noQuote : Layout.atQuotationMark (c :: cs) = Layout.atQuotationMark [] := goes.2
    rw [Layout.nextLine, Layout.nextLine, noQuote]

theorem opening_eq_none (none_ : opensNone u = true) (v : List Char) (read : Nat) (q : Quote) :
    q.opening read (u ++ v) = none := by
  induction u generalizing read q with
  | nil => cases none_
  | cons c cs ih =>
    rw [opensNone] at none_
    rw [List.cons_append, Quote.opening.eq_def]
    split at none_
    · next letter =>
      simp only [List.contains_iff_mem, List.mem_cons, List.not_mem_nil, or_false] at letter
      simp only [ih none_]
      rcases letter with rfl | rfl | rfl | rfl | rfl | rfl | rfl | rfl <;> rfl
    · next letter =>
      simp only [List.contains_iff_mem, List.mem_cons, not_or] at letter
      simp only [Layout.atQuotationMark, Bool.not_eq_true', Bool.or_eq_false_iff,
        beq_eq_false_iff_ne] at none_
      simp [letter, none_]

/-- A token of the layout is read before anything else. -/
theorem nextOutside_of_line {found : Token × Nat × Layout} (gap : isGap blanks = true)
    (goes : goesOn text = true) (line : lineAhead expects l (gapBefore blanks text) = some found) :
    l.nextOutside expects (blanks ++ text) = some found := by
  simp only [Layout.nextOutside, measure_gap _ gap goes, nextLine_of_goesOn goes]
  rw [lineAhead] at line
  rw [line]

theorem nextOutside_of_no_line (gap : isGap blanks = true) (goes : goesOn text = true)
    (unopened : ∀ read q, Quote.opening read q text = none)
    (noLine : lineAhead expects l (gapBefore blanks text) = none) :
    l.nextOutside expects (blanks ++ text) = none := by
  simp only [Layout.nextOutside, measure_gap _ gap goes, nextLine_of_goesOn goes]
  rw [lineAhead] at noLine
  rw [noLine]
  simp [Layout.nextOpening, unopened]

theorem next_of_outermost (outside : l.quotes = []) (text : List Char) :
    l.next expects text = l.nextOutside expects text := by
  unfold Layout.next
  rw [outside]

/-- A token of the layout takes no characters. -/
theorem lineAhead_length (line : lineAhead expects l g = some (t, n, l')) : n = 0 := by
  unfold lineAhead at line
  split at line
  · rcases nextLine_cases line with ⟨-, none, -⟩ | ⟨-, none, -, -⟩ | ⟨-, none, -⟩
    all_goals exact none
  · cases line

/-! ## Lexemes -/

theorem takeWhile_gap (gap : isGap blanks = true) (goes : goesOn text = true) :
    (blanks ++ text).takeWhile isBlank = blanks := by
  have blank : ∀ c ∈ blanks, isBlank c = true := by
    intro c inside
    have either := List.all_eq_true.1 gap c inside
    rcases Bool.or_eq_true_iff.1 either with same | same
    · rw [beq_iff_eq.1 same]
      decide
    · rw [beq_iff_eq.1 same]
      decide
  have stops : text.takeWhile isBlank = [] := by
    cases text with
    | nil => rfl
    | cons c cs =>
      simp only [goesOn, isOrdinary, Bool.and_eq_true, Bool.not_eq_true'] at goes
      rw [List.takeWhile_cons_of_neg (by simp [goes.1.1.1])]
  rw [List.takeWhile_append_of_pos blank, stops, List.append_nil]

/-- The lexeme after a gap is the best match there. -/
theorem nextLexeme_of_match (gap : isGap blanks = true) (goes : goesOn (c :: text) = true)
    (found : bestMatch expects (blanks.length != 0) (c :: text) = some ⟨x, n⟩) :
    nextLexeme expects (blanks ++ c :: text) =
      some (if x.token = .name then (((rivals ((c :: text).take n)).find? expects).getD .name)
        else x.token, blanks.length + n) := by
  unfold nextLexeme
  dsimp only
  rw [takeWhile_gap gap goes, List.drop_left]
  dsimp only
  rw [found]
  simp only [keywordOf?_eq]

/-- At the end of the text its end is read, if that may stand. -/
theorem nextLexeme_of_end (gap : isGap blanks = true) (stands : expects .endOfText = true) :
    nextLexeme expects blanks = some (.endOfText, blanks.length) := by
  have all : (blanks ++ []).takeWhile isBlank = blanks := takeWhile_gap gap rfl
  rw [List.append_nil] at all
  unfold nextLexeme
  dsimp only
  rw [all, List.drop_length]
  simp [stands]

/-! ## Lexemes as they are written -/

/-- What a lexeme is written as. -/
inductive Shape where
  /-- A word: the first of the keywords that may stand, or else a name. -/
  | word (rivals : List Token)
  /-- A mark or a number. -/
  | mark (token : Token)
  deriving DecidableEq

namespace Shape

/-- The token that a lexeme is read as. -/
def token (expects : Token → Bool) : Shape → Token
  | word rivals => (rivals.find? expects).getD .name
  | mark t => t

/-- A text is written as the shape says, if the character comes after it. -/
def spells (text : List Char) (following : Char) : Shape → Bool
  | word ks => isWord text following && rivals text == ks
  | mark t => isMark t (text ++ [following]) text.length && t != .name

end Shape

/-- A lexeme of a text, with the blanks before it. -/
structure Piece where
  blanks : List Char
  text : List Char
  shape : Shape

/-- The lexeme can be told from the character that comes after it. -/
def Piece.isClear (p : Piece) (following : Char) : Bool :=
  isGap p.blanks && goesOn p.text && opensNone p.text && p.shape.spells p.text following

variable {s : Shape} {p : Piece}

/-- What it takes for a lexeme to be told from the character after it. -/
structure Piece.Clear (p : Piece) (following : Char) : Prop where
  gap : isGap p.blanks = true
  goes : goesOn p.text = true
  unopened : opensNone p.text = true
  spelled : p.shape.spells p.text following = true

theorem Piece.isClear_iff : p.isClear c = true ↔ p.Clear c := by
  simp only [isClear, Bool.and_eq_true]
  constructor
  · exact fun ⟨⟨⟨gap, goes⟩, unopened⟩, spelled⟩ => ⟨gap, goes, unopened, spelled⟩
  · exact fun clear => ⟨⟨⟨clear.gap, clear.goes⟩, clear.unopened⟩, clear.spelled⟩

theorem exists_cons_of_opensNone (unopened : opensNone text = true) : ∃ d ds, text = d :: ds := by
  cases text with
  | nil => cases unopened
  | cons d ds => exact ⟨d, ds, rfl⟩

theorem bestMatch_spelled (spelled : s.spells text c = true) (plain : expects .formatText = false)
    (stands : expects (s.token expects) = true) (afterBlank : Bool) (v : List Char) :
    ∃ x, bestMatch expects afterBlank (text ++ c :: v) = some ⟨x, text.length⟩ ∧
      (if x.token = .name then ((rivals text).find? expects).getD .name else x.token) =
        s.token expects := by
  cases s with
  | word ks =>
    simp only [Shape.spells, Bool.and_eq_true, beq_iff_eq] at spelled
    obtain ⟨word, rfl⟩ := spelled
    obtain ⟨x, isName, found⟩ := bestMatch_word word plain (mayStand_word stands) v
    refine ⟨x, found, ?_⟩
    rw [if_pos isName]
    rfl
  | mark t =>
    simp only [Shape.spells, Bool.and_eq_true, bne_iff_ne] at spelled
    obtain ⟨mark, notName⟩ := spelled
    have may : mayStand expects t = true := by
      have stands : expects t = true := stands
      simp [mayStand, stands]
    obtain ⟨x, rfl, found⟩ := bestMatch_mark mark plain may v
    rw [List.append_assoc, List.singleton_append] at found
    refine ⟨x, found, ?_⟩
    rw [if_neg notName]
    rfl

/-! ## The next token -/

namespace Place

/-- A token of the layout is read in the gap before the next lexeme. -/
theorem next_line (outside : l.quotes = []) (gap : isGap blanks = true) (goes : goesOn text = true)
    (line : lineAhead expects l (gapBefore blanks text) = some (t, n, l')) :
    (Place.mk (blanks ++ text) offset l).next expects = some (t, ⟨blanks ++ text, offset, l'⟩) := by
  have found := nextOutside_of_line gap goes line
  rw [← next_of_outermost outside, lineAhead_length line] at found
  rw [next, found]
  rfl

/-- Where the gap gives no token of the layout, the lexeme after it is read. -/
theorem next_lexeme (outside : l.quotes = []) (clear : p.isClear c = true)
    (plain : expects .formatText = false) (stands : expects (p.shape.token expects) = true)
    (noLine : lineAhead expects l (Gap.empty.over p.blanks) = none) (v : List Char) :
    (Place.mk (p.blanks ++ (p.text ++ c :: v)) offset l).next expects =
      some (p.shape.token expects, ⟨c :: v, offset + (p.blanks.length + p.text.length), l⟩) := by
  obtain ⟨gap, goes, unopened, spelled⟩ := Piece.isClear_iff.1 clear
  obtain ⟨x, found, means⟩ :=
    bestMatch_spelled spelled plain stands (p.blanks.length != 0) v
  obtain ⟨d, ds, written⟩ := exists_cons_of_opensNone unopened
  rw [written] at goes unopened found means ⊢
  have none_ : l.nextOutside expects (p.blanks ++ (d :: ds ++ c :: v)) = none :=
    nextOutside_of_no_line gap goes (opening_eq_none unopened (c :: v)) noLine
  have goesOnHere : goesOn (d :: (ds ++ c :: v)) = true := goes
  have lexeme := nextLexeme_of_match gap goesOnHere found
  rw [← List.cons_append, List.take_left, means] at lexeme
  rw [next, next_of_outermost outside, none_]
  simp only [lexeme, Option.map_some, forward]
  rw [← List.append_assoc, List.drop_left' (by rw [List.length_append])]

/-- At the end of the text its end is read, if the gap before it gives no token of the layout. -/
theorem next_end (outside : l.quotes = []) (gap : isGap blanks = true)
    (stands : expects .endOfText = true) (noLine : lineAhead expects l (gapBefore blanks []) = none) :
    (Place.mk blanks offset l).next expects =
      some (.endOfText, ⟨[], offset + blanks.length, l⟩) := by
  have none_ : l.nextOutside expects (blanks ++ []) = none :=
    nextOutside_of_no_line gap rfl (fun _ _ => rfl) noLine
  rw [List.append_nil] at none_
  rw [next, next_of_outermost outside, none_]
  simp only [nextLexeme_of_end gap stands, Option.map_some, forward, List.drop_length]

/-- Where a mark is written that may not stand, nothing is read. -/
theorem next_stuck (outside : l.quotes = []) (clear : p.isClear c = true) (mark : p.shape = .mark m)
    (plain : expects .formatText = false) (barred : mayStand expects m = false)
    (noLine : lineAhead expects l (Gap.empty.over p.blanks) = none) (v : List Char) :
    (Place.mk (p.blanks ++ (p.text ++ c :: v)) offset l).next expects = none := by
  obtain ⟨gap, goes, unopened, spelled⟩ := Piece.isClear_iff.1 clear
  simp only [mark, Shape.spells, isMark, Bool.and_eq_true] at spelled
  obtain ⟨⟨sole, -⟩, -⟩ := spelled
  obtain ⟨d, ds, written⟩ := exists_cons_of_opensNone unopened
  rw [written] at goes unopened sole ⊢
  have none_ : l.nextOutside expects (p.blanks ++ (d :: ds ++ c :: v)) = none :=
    nextOutside_of_no_line gap goes (opening_eq_none unopened (c :: v)) noLine
  have unmatched : bestMatch expects (p.blanks.length != 0) (d :: (ds ++ c :: v)) = none := by
    apply bestMatch_eq_none
    intro y inside sought
    have other : y.token ≠ m := by
      rintro rfl
      simp [isSought, barred] at sought
    have missed := longest_of_isSole sole plain inside other sought v
    simpa using missed
  have long : p.blanks ++ d :: (ds ++ c :: v) ≠ ['\\'] := by
    intro same
    have lengths := congrArg List.length same
    simp at lengths
    omega
  have nothing : nextLexeme expects (p.blanks ++ d :: (ds ++ c :: v)) = none := by
    have goes : goesOn (d :: (ds ++ c :: v)) = true := goes
    unfold nextLexeme
    dsimp only
    rw [takeWhile_gap gap goes, List.drop_left]
    simp only [unmatched, if_neg long]
  rw [next, next_of_outermost outside, none_]
  simp only [List.cons_append, nothing, Option.map_none]

end Place

end DefTally.Source
