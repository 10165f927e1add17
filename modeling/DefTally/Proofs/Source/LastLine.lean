import DefTally.Proofs.Source.Taking
import Mathlib.Data.List.Basic

/-!
# The end of the last line

A line feed after a text changes nothing of what is read in the text, unless the text ends in a
backslash, which the line feed would make a joined line of.
-/

namespace DefTally.Source

open DefTally.Text

/-- The text does not end in a backslash. -/
def Unjoined (text : List Char) : Prop := text.getLast? ≠ some '\\'

variable {text rest : List Char} {c : Char} {expects : Token → Bool} {l l' : Layout} {g : Gap}
  {t : Token} {n : Nat}

theorem Unjoined.of_append {u : List Char} (h : Unjoined (u ++ rest)) : Unjoined rest := by
  intro last
  apply h
  rw [List.getLast?_append, last, Option.some_or]

theorem Unjoined.tail (h : Unjoined (c :: rest)) : Unjoined rest :=
  Unjoined.of_append (u := [c]) h

theorem Unjoined.drop (h : Unjoined text) (n : Nat) : Unjoined (text.drop n) := by
  rw [← List.take_append_drop n text] at h
  exact h.of_append

/-- After a backslash the text goes on. -/
theorem Unjoined.ne_nil (h : Unjoined ('\\' :: rest)) : rest ≠ [] := by
  rintro rfl
  exact h rfl

/-! ## Gaps -/

/-- A gap and the text after it, with a line feed at the end of the text. -/
def lengthened : Gap × List Char → Gap × List Char
  | (g, []) => ({ g with length := g.length + 1 }, [])
  | (g, c :: cs) => (g, c :: (cs ++ ['\n']))

theorem measure_concat {heeded inComment : Bool} (h : Unjoined text) :
    g.measure heeded inComment (text ++ ['\n']) = (g.measure heeded inComment text).map lengthened := by
  fun_induction Gap.measure heeded g inComment text with
  | case1 g inComment => cases inComment <;> rfl
  | case10 => exact absurd rfl h.ne_nil
  | case11 g _ _ rest _ _ _ _ _ ih =>
    rw [← ih h.tail.tail]
    simp_all [Gap.measure]
  | case12 => simp_all [Gap.measure]
  | case13 =>
    rw [List.cons_append, Gap.measure.eq_def]
    simp_all [lengthened]
  | _ =>
    have later := h.tail
    rw [List.cons_append, Gap.measure.eq_def]
    simp_all

/-! ## String literals -/

theorem opening_concat (read : Nat) (q : Quote) (text : List Char) :
    q.opening read (text ++ ['\n']) = q.opening read text := by
  fun_induction Quote.opening read q text with
  | case1 => rfl
  | case9 read q c rest _ _ _ _ _ quote short =>
    have other : '\n' ≠ c := by
      rintro rfl
      cases quote
    rw [List.cons_append, Quote.opening.eq_def]
    rcases rest with - | ⟨d, - | ⟨e, rest⟩⟩
    · simp_all
    · simp_all
    · exact absurd rfl (short d e rest)
  | _ =>
    rw [List.cons_append, Quote.opening.eq_def]
    simp_all

theorem atMark_concat {q : Quote} (mark : q.mark ≠ '\n') (read : Nat) (seen : Bool) (text : List Char) :
    q.atMark read seen (text ++ ['\n']) = q.atMark read seen text := by
  unfold Quote.atMark
  rcases text with - | ⟨c, - | ⟨d, rest⟩⟩
  · simp [mark.symm]
  · simp [mark.symm]
  · rfl

/-- A line feed after the text does not end a string literal, and is no text by itself. -/
theorem inside_concat {q : Quote} (mark : q.mark ≠ '\n') {read : Nat} {seen : Bool} (h : Unjoined text) :
    q.inside read seen (text ++ ['\n']) = q.inside read seen text := by
  fun_induction Quote.inside q read seen text with
  | case1 read seen =>
    rw [List.nil_append, Quote.inside.eq_def]
    simp [mark.symm, Quote.inside]
  | case3 | case13 => exact absurd rfl h.ne_nil
  | case5 _ _ _ _ _ _ _ ih =>
    rw [← ih h.tail.tail.tail, List.cons_append, Quote.inside.eq_def]
    simp_all
  | case6 _ _ _ _ _ _ _ _ _ ih | case7 _ _ _ _ _ _ ih =>
    rw [← ih h.tail.tail, List.cons_append, Quote.inside.eq_def]
    simp_all
  | case8 _ _ _ _ _ _ _ _ ih =>
    rw [← ih h.tail, List.cons_append, Quote.inside.eq_def]
    simp_all
  | case9 _ _ _ _ _ _ _ _ _ ih =>
    rw [← ih h.tail.tail.tail, List.cons_append, Quote.inside.eq_def]
    simp_all
  | case15 =>
    rw [List.cons_append, Quote.inside.eq_def]
    simp_all [atMark_concat mark]
  | case17 _ _ _ _ noBrace noJoin noMark noLine ih =>
    rw [← ih h.tail, List.cons_append, Quote.inside.eq_def]
    dsimp only
    rw [if_neg noBrace, if_neg noJoin, if_neg noMark, if_neg noLine]
  | _ =>
    rw [List.cons_append, Quote.inside.eq_def]
    simp_all [Quote.inside]

/-! ## The layout at the end of a text -/

theorem nextLine_lengthened {text : List Char} :
    l.nextLine expects (lengthened (g, text)).1 (lengthened (g, text)).2 = l.nextLine expects g text := by
  cases text <;> rfl

theorem nextOpening_lengthened {text : List Char} :
    l.nextOpening (lengthened (g, text)).1 (lengthened (g, text)).2 = l.nextOpening g text := by
  cases text with
  | nil => rfl
  | cons c cs =>
    have same := opening_concat g.length .unread (c :: cs)
    rw [List.cons_append] at same
    simp only [lengthened, Layout.nextOpening, same]

theorem nextOutside_concat (h : Unjoined text) :
    l.nextOutside expects (text ++ ['\n']) = l.nextOutside expects text := by
  simp only [Layout.nextOutside, measure_concat h]
  cases Gap.empty.measure (expects .indent || expects .dedent || expects .newline || expects .kwExcept)
      false text with
  | none => rfl
  | some measured =>
    obtain ⟨g, rest⟩ := measured
    have newLine : (lengthened (g, rest)).1.newLine = g.newLine := by cases rest <;> rfl
    have comment : (lengthened (g, rest)).1.comment = g.comment := by cases rest <;> rfl
    simp only [Option.map_some, newLine, comment, nextLine_lengthened, nextOpening_lengthened]

/-- A line feed after a text is no part of the next token of the layout, unless nothing is left of
the text but the end of a string literal. -/
theorem next_concat (h : Unjoined text) (marked : l.Marked) (live : l.quotes = [] ∨ text ≠ []) :
    l.next expects (text ++ ['\n']) = l.next expects text := by
  unfold Layout.next
  cases open_ : l.quotes with
  | nil => exact nextOutside_concat h
  | cons q outer =>
    cases text with
    | nil => exact absurd (live.resolve_left (by simp [open_])) (fun no => no rfl)
    | cons c rest =>
      have inside : q.inside 0 false (c :: rest ++ ['\n']) = q.inside 0 false (c :: rest) :=
        inside_concat (marked q (open_ ▸ List.mem_cons_self)) h
      rw [List.cons_append] at inside
      have outside : l.nextOutside expects (c :: rest ++ ['\n']) = l.nextOutside expects (c :: rest) :=
        nextOutside_concat h
      rw [List.cons_append] at outside
      simp only [List.cons_append, Layout.nextInside, inside, outside]
      split
      · next brace =>
        simp only [Bool.and_eq_true, Bool.or_eq_true, beq_iff_eq] at brace
        cases rest with
        | nil => rcases brace.2 with rfl | rfl <;> rfl
        | cons d ds => rfl
      · rfl

/-! ## Lexemes at the end of a text -/

/-- No text of the pattern ends in a line feed, unless a backslash comes first. -/
structure ClearOfLines (p : Pattern) : Prop where
  alone : (p.after '\n').takesBlank = false
  first : ∀ c ≠ '\\', (p.after c).mayEnd '\n' = false
  joined : ∀ d, ((p.after '\\').after d).mayEnd '\n' = false

variable {p : Pattern} {x : Lexeme} {afterBlank : Bool}

theorem ClearOfLines.of_mayEnd (ends : p.mayEnd '\n' = false) : ClearOfLines p where
  alone := Pattern.takesBlank_after ends
  first c _ := Pattern.mayEnd_after ends c
  joined d := Pattern.mayEnd_after (Pattern.mayEnd_after ends '\\') d

theorem ClearOfLines.longest_concat (clear : ClearOfLines p) (h : Unjoined text) :
    p.longest (text ++ ['\n']) = p.longest text := by
  rcases text with - | ⟨c, rest⟩
  · simp [Pattern.longest, Pattern.longestFrom_cons, Pattern.longestFrom, clear.alone]
  · by_cases backslash : c = '\\'
    · subst backslash
      obtain ⟨d, ds, rfl⟩ := List.exists_cons_of_ne_nil h.ne_nil
      simp only [Pattern.longest, List.cons_append, Pattern.longestFrom_cons]
      exact Pattern.longestFrom_concat _ _ (clear.joined d)
    · simp only [Pattern.longest, List.cons_append, Pattern.longestFrom_cons]
      exact Pattern.longestFrom_concat _ _ (clear.first c backslash)

/-- After a backslash no text of the pattern is more than a line feed that ends in one. -/
theorem clear_backslash {q : Pattern} (after : ∀ d, (q.after d).mayEnd '\n' = false) :
    ClearOfLines (.seq (.one '\\') q) where
  alone := rfl
  first c other := by
    have apart : (c == '\\') = false := beq_eq_false_iff_ne.2 other
    simp [Pattern.after, Pattern.one, Pattern.takesBlank, apart, Pattern.followedBy, Pattern.mayEnd]
  joined := after

theorem clear_escape : ClearOfLines Lexeme.escape := by
  change ClearOfLines (.seq (.one '\\') (Pattern.oneOf _))
  apply clear_backslash
  intro d
  simp only [Pattern.oneOf, Pattern.after, Pattern.mayEnd_orElse, Bool.or_eq_false_iff]
  refine ⟨?_, ?_, ?_, ?_, ?_, ?_, ?_⟩
  case refine_5 =>
    simp only [Pattern.one, Pattern.after]
    split <;> rfl
  all_goals exact Pattern.mayEnd_after (by decide) d

theorem clear_lineJoin : ClearOfLines (.literal "\\\n") := by
  change ClearOfLines (.seq (.one '\\') (.one '\n'))
  apply clear_backslash
  intro d
  simp only [Pattern.one, Pattern.after]
  split <;> rfl

theorem clear_lexeme (among : x ∈ lexemes) : ClearOfLines x.text := by
  have spelled : ∀ y ∈ spelledLexemes, y.text.mayEnd '\n' = false := by decide
  rcases List.mem_append.1 among with named | isSpelled
  · simp only [List.mem_cons, List.not_mem_nil, or_false] at named
    rcases named with rfl | rfl | rfl | rfl | rfl | rfl | rfl | rfl | rfl
    case inr.inr.inr.inl => exact clear_escape
    case inr.inr.inr.inr.inr.inr.inr.inr => exact clear_lineJoin
    all_goals exact .of_mayEnd (by decide)
  · exact .of_mayEnd (spelled x isSpelled)

theorem bestMatch_concat (h : Unjoined text) :
    bestMatch expects afterBlank (text ++ ['\n']) = bestMatch expects afterBlank text := by
  unfold bestMatch
  apply List.foldl_ext
  intro best x among
  rw [(clear_lexeme among).longest_concat h]

/-- What is read with a line feed at the end of the text: the end of the text comes a character
later. -/
def endedAt : Token × Nat → Token × Nat
  | (t, n) => (t, if t = .endOfText then n + 1 else n)

/-- The next lexeme is the same with a line feed after the text. -/
theorem nextLexeme_concat (h : Unjoined text) :
    nextLexeme expects (text ++ ['\n']) = (nextLexeme expects text).map endedAt := by
  obtain ⟨blanks, rest, rfl, blank, stop⟩ := exists_blanks text
  cases rest with
  | nil =>
    have longer : ∀ c ∈ blanks ++ ['\n'], isBlank c = true := by
      intro c inside
      rcases List.mem_append.1 inside with old | new
      · exact blank c old
      · rw [List.mem_singleton.1 new]
        decide
    rw [List.append_nil, nextLexeme_blanks longer, nextLexeme_blanks blank]
    split <;> simp [endedAt]
  | cons c cs =>
    have unjoined : Unjoined (c :: cs) := h.of_append
    have stop := stop c rfl
    have same : bestMatch expects (blanks.length != 0) (c :: cs ++ ['\n']) =
        bestMatch expects (blanks.length != 0) (c :: cs) := bestMatch_concat unjoined
    rw [List.cons_append] at same
    rw [List.append_assoc, List.cons_append, nextLexeme_of_blanks blank stop,
      nextLexeme_of_blanks blank stop, same]
    cases found : bestMatch expects (blanks.length != 0) (c :: cs) with
    | none =>
      have unlike : blanks ++ c :: cs ≠ ['\\'] := fun same => h (by rw [same]; rfl)
      have longer : blanks ++ c :: (cs ++ ['\n']) ≠ ['\\'] := by
        intro same
        have lengths := congrArg List.length same
        simp only [List.length_append, List.length_cons, List.length_nil] at lengths
        omega
      simp only [if_neg unlike, if_neg longer, Option.map_none]
    | some m =>
      have among := (bestMatch_sound found).1
      have word : m.readAs expects (c :: (cs ++ ['\n'])) = m.readAs expects (c :: cs) := by
        rw [Match.readAs, ← List.cons_append,
          List.take_append_of_le_length (bestMatch_bounds found).2, ← Match.readAs]
      simp only [word, Option.map_some, endedAt, if_neg (readAs_plain among expects (c :: cs)).2.1]

/-! ## An open string literal before line ends -/

theorem inside_lines {q : Quote} (mark : q.mark ≠ '\n') (lines : ∀ c ∈ text, c = '\n') (read : Nat)
    (seen : Bool) : q.inside read seen text = .other := by
  induction text generalizing read seen with
  | nil => rfl
  | cons c rest ih =>
    obtain rfl := lines c List.mem_cons_self
    have later := ih fun d inside => lines d (List.mem_cons_of_mem _ inside)
    rw [Quote.inside.eq_def]
    simp [mark.symm, later]

theorem measure_lines (heeded : Bool) (g : Gap) (lines : ∀ c ∈ text, c = '\n') :
    ∃ g', g.measure heeded false text = some (g', []) := by
  induction text generalizing g with
  | nil => exact ⟨_, rfl⟩
  | cons c rest ih =>
    obtain rfl := lines c List.mem_cons_self
    rw [Gap.measure.eq_def]
    exact ih g.breakLine fun d inside => lines d (List.mem_cons_of_mem _ inside)

theorem remember_quotes_ne_nil (open_ : l.quotes ≠ []) : l.remember.quotes ≠ [] := by
  have some := List.length_pos_iff.2 open_
  apply List.ne_nil_of_length_pos
  simp only [Layout.remember, List.length_drop]
  omega

theorem nextOutside_lines (open_ : l.quotes ≠ []) (lines : ∀ c ∈ text, c = '\n')
    (read : l.nextOutside expects text = some (t, n, l')) : l'.quotes ≠ [] := by
  obtain ⟨g, measured⟩ := measure_lines
    (expects .indent || expects .dedent || expects .newline || expects .kwExcept) .empty lines
  simp only [Layout.nextOutside, measured] at read
  split at read
  · next found line =>
    cases read
    split at line
    · rcases nextLine_cases line with ⟨-, -, rfl⟩ | ⟨-, -, rfl, -⟩ | ⟨-, -, rfl⟩
      · exact remember_quotes_ne_nil (l := { l with indents := g.width % 256 :: l.indents }) open_
      · exact open_
      · exact open_
    · cases line
  · split at read
    · cases read
    · cases read

/-- A string literal stays open where only line ends are left. -/
theorem next_lines (open_ : l.quotes ≠ []) (marked : l.Marked) (lines : ∀ c ∈ text, c = '\n')
    (read : l.next expects text = some (t, n, l')) : l'.quotes ≠ [] := by
  unfold Layout.next at read
  split at read
  · next q outer c rest here =>
    obtain rfl := lines c List.mem_cons_self
    have mark := marked q (here ▸ List.mem_cons_self)
    split at read
    · next brace => simp at brace
    · split at read
      · rw [Layout.nextInside, inside_lines mark lines] at read
        cases read
      · exact nextOutside_lines open_ lines read
  · exact nextOutside_lines open_ lines read

namespace Place

variable {p q : Place}

/-- The place with a line feed at the end of the text. -/
def ended (p : Place) : Place := { p with rest := p.rest ++ ['\n'] }

/-- A string literal is open, and only line ends are left. -/
def stranded (p : Place) : Bool := !p.layout.quotes.isEmpty && p.rest.all (· == '\n')

theorem stranded_iff : p.stranded = true ↔ p.layout.quotes ≠ [] ∧ ∀ c ∈ p.rest, c = '\n' := by
  simp [stranded]

@[simp] theorem stranded_ended (p : Place) : p.ended.stranded = p.stranded := by
  simp [stranded, ended]

theorem forward_ended {n : Nat} (fits : n ≤ p.rest.length) (l : Layout) :
    p.ended.forward n l = (p.forward n l).ended := by
  simp [forward, ended, List.drop_append_of_le_length fits]

/-- With a line feed at the end of the text the same token is read, up to the same place but for the
end of the text. -/
theorem next_ended (expects : Token → Bool) (unjoined : Unjoined p.rest) (marked : p.layout.Marked)
    (live : p.stranded = false) :
    (p.next expects = none ∧ p.ended.next expects = none) ∨
      ∃ t q q', p.next expects = some (t, q) ∧ p.ended.next expects = some (t, q') ∧
        (t = .endOfText ∨ q' = q.ended) := by
  have here : p.layout.quotes = [] ∨ p.rest ≠ [] := by
    rw [Bool.eq_false_iff, Ne, stranded_iff] at live
    by_contra neither
    rw [not_or, not_not] at neither
    exact live ⟨neither.1, by simp [neither.2]⟩
  have layout : p.ended.layout.next expects p.ended.rest = p.layout.next expects p.rest :=
    next_concat unjoined marked here
  have lexeme : nextLexeme expects p.ended.rest = (nextLexeme expects p.rest).map endedAt :=
    nextLexeme_concat unjoined
  unfold next
  rw [layout, lexeme]
  cases found : p.layout.next expects p.rest with
  | some read =>
    obtain ⟨t, n, l'⟩ := read
    exact .inr ⟨t, _, _, rfl, rfl, .inr (forward_ended (DefTally.Source.next_takes found).fits l')⟩
  | none =>
    cases found : nextLexeme expects p.rest with
    | none => exact .inl ⟨rfl, rfl⟩
    | some read =>
      obtain ⟨t, n⟩ := read
      refine .inr ⟨t, _, _, rfl, rfl, ?_⟩
      by_cases isEnd : t = .endOfText
      · exact .inl isEnd
      · rw [if_neg isEnd]
        exact .inr (forward_ended (nextLexeme_takes p.layout found).fits p.layout)

/-- A string literal that is open before nothing but line ends is never closed. -/
theorem stranded_next (marked : p.layout.Marked) (h : p.stranded = true)
    (read : p.next expects = some (t, q)) : q.stranded = true := by
  obtain ⟨open_, lines⟩ := stranded_iff.1 h
  rw [stranded_iff]
  unfold next at read
  split at read
  · next found =>
    cases read
    exact ⟨next_lines open_ marked lines found, fun c inside => lines c (List.mem_of_mem_drop inside)⟩
  · obtain ⟨⟨t', n⟩, found, same⟩ := Option.map_eq_some_iff.1 read
    cases same
    exact ⟨open_, fun c inside => lines c (List.mem_of_mem_drop inside)⟩

end Place

end DefTally.Source
