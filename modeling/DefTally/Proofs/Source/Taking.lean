import DefTally.Proofs.Source.Lexing

/-!
# What a token takes

`Layout.Takes` says what reading a token takes of the text and does to the layout: a token that is
not of the layout takes a character at least, and none takes more than there are. `Place.next_takes`
says so for every token that the reader of modules finds.
-/

namespace DefTally.Source

open DefTally.Text

variable {text rest : List Char} {c : Char} {expects : Token → Bool} {l l' : Layout} {g : Gap}
  {t : Token} {n : Nat}

/-! ## String literals -/

/-- What is inside a string literal takes characters, at most so many. -/
def Inside.Within (most : Nat) : Inside → Prop
  | .text n => 1 ≤ n ∧ n ≤ most
  | .close n => 1 ≤ n ∧ n ≤ most
  | .other => True

theorem Inside.Within.mono {x : Inside} {most more : Nat} (h : x.Within most) (le : most ≤ more) :
    x.Within more := by
  cases x with
  | text | close => exact ⟨h.1, Nat.le_trans h.2 le⟩
  | other => trivial

theorem textIf_within {read most : Nat} {seen : Bool} (some : seen = true → 1 ≤ read)
    (short : read ≤ most) : (Inside.textIf seen read).Within most := by
  cases seen with
  | false => trivial
  | true => exact ⟨some rfl, short⟩

/-- What is found at a mark of a string literal takes no more than there is. -/
theorem atMark_within (q : Quote) {read : Nat} {seen : Bool} (some : seen = true → 1 ≤ read)
    (text : List Char) : (q.atMark read seen text).Within (read + (text.length + 1)) := by
  unfold Quote.atMark
  rcases text with - | ⟨c, - | ⟨d, rest⟩⟩ <;> simp only <;> repeat' split
  all_goals simp_all [Inside.Within]

/-- What is inside a string literal takes a character at least, and no more than there are. -/
theorem inside_within (q : Quote) {read : Nat} {seen : Bool} (some : seen = true → 1 ≤ read) :
    (q.inside read seen text).Within (read + text.length) := by
  fun_induction Quote.inside q read seen text with
  | case2 | case10 | case12 | case13 | case14 => exact textIf_within some (by omega)
  | case5 _ _ _ _ _ _ _ ih | case7 _ _ _ _ _ _ ih =>
    exact (ih (by omega)).mono (by simp only [List.length_cons]; omega)
  | case6 _ _ _ _ _ _ _ _ _ ih | case9 _ _ _ _ _ _ _ _ _ ih | case17 _ _ _ _ _ _ _ _ ih =>
    exact (ih (by omega)).mono (by simp only [List.length_cons]; omega)
  | case8 _ _ _ _ _ _ _ _ ih => exact (ih (by omega)).mono (by simp only [List.length_cons]; omega)
  | case15 => exact atMark_within q some _
  | _ => trivial

/-- The opening of a string literal takes more than was read before, and its mark is no line end. -/
theorem opening_within {read n : Nat} {q q' : Quote} (opened : q.opening read text = some (q', n)) :
    read < n ∧ n ≤ read + text.length ∧ q'.mark ≠ '\n' := by
  fun_induction Quote.opening read q text with
  | case1 | case10 => cases opened
  | case2 _ _ _ _ _ ih | case3 _ _ _ _ _ _ ih | case4 _ _ _ _ _ _ _ ih | case5 _ _ _ _ _ _ _ _ ih =>
    obtain ⟨low, high, mark⟩ := ih opened
    exact ⟨by omega, by rw [List.length_cons]; omega, mark⟩
  | case6 =>
    cases opened
    exact ⟨by omega, by rw [List.length_cons]; omega, by simp⟩
  | case7 _ _ c _ _ _ _ _ quote | case8 _ _ c _ _ _ _ _ quote | case9 _ _ c _ _ _ _ _ _ quote =>
    have mark : c ≠ '\n' := by
      rintro rfl
      cases quote
    cases opened
    exact ⟨by omega, by simp only [List.length_cons]; omega, mark⟩

/-! ## Tokens of the layout -/

/-- The token of a line end or of a change of indentation. -/
def Token.isLayout : Token → Bool
  | .newline | .indent | .dedent => true
  | _ => false

/-- No open string literal ends with its line. -/
def Layout.Marked (l : Layout) : Prop := ∀ q ∈ l.quotes, q.mark ≠ '\n'

/-- What reading a token takes of the text and does to the layout: a token that is not of the layout
takes a character at least, one block more is open after an indentation at most, one fewer after a
dedentation, and likewise for string literals. -/
structure Layout.Takes (l : Layout) (text : List Char) (t : Token) (n : Nat) (l' : Layout) : Prop where
  fits : n ≤ text.length
  moves : t.isLayout = false → t ≠ .endOfText → 1 ≤ n
  indents : l'.indents.length + (if t = .dedent then 1 else 0) ≤
    l.indents.length + if t = .indent then 1 else 0
  quotes : l'.quotes.length + (if t = .stringEnd then 1 else 0) ≤
    l.quotes.length + if t = .stringStart then 1 else 0
  marked : l.Marked → l'.Marked

theorem remember_indents (l : Layout) : l.remember.indents.length ≤ l.indents.length := by
  simp [Layout.remember]

theorem remember_quotes (l : Layout) : l.remember.quotes.length ≤ l.quotes.length := by
  simp [Layout.remember]

theorem remember_marked (marked : l.Marked) : l.remember.Marked := by
  intro q inside
  simp only [Layout.remember] at inside
  exact marked q (List.mem_of_mem_drop inside)

/-- A line end or a change of indentation takes nothing, and opens or closes one block at most. -/
theorem nextLine_takes (line : l.nextLine expects g rest = some (t, n, l')) (text : List Char) :
    l.Takes text t n l' := by
  rcases nextLine_cases line with ⟨rfl, rfl, rfl⟩ | ⟨rfl, rfl, rfl, deeper⟩ | ⟨rfl, rfl, rfl⟩
  · exact {
      fits := Nat.zero_le _
      moves := nofun
      indents := by simpa using remember_indents { l with indents := g.width % 256 :: l.indents }
      quotes := by simpa using remember_quotes { l with indents := g.width % 256 :: l.indents }
      marked := fun marked => remember_marked (l := { l with indents := _ :: l.indents }) marked }
  · refine ⟨Nat.zero_le _, nofun, ?_, Nat.le_refl _, id⟩
    obtain ⟨indents, quotes, inFormat⟩ := l
    cases indents with
    | nil => exact absurd deeper (Nat.not_lt_zero _)
    | cons width outer => exact Nat.le_refl _
  · exact ⟨Nat.zero_le _, nofun, Nat.le_refl _, Nat.le_refl _, id⟩

/-- Reading on in an open string literal closes that one at most. -/
theorem nextInside_takes {q : Quote} {outer : List Quote} (open_ : l.quotes = q :: outer)
    (read : l.nextInside q outer text = some (t, n, l')) : l.Takes text t n l' := by
  have within : (q.inside 0 false text).Within (0 + text.length) := inside_within q nofun
  rw [Nat.zero_add] at within
  unfold Layout.nextInside at read
  split at read
  · next found =>
    cases read
    rw [found] at within
    exact ⟨within.2, fun _ _ => within.1, Nat.le_refl _, Nat.le_refl _, id⟩
  · next found =>
    cases read
    rw [found] at within
    refine ⟨within.2, fun _ _ => within.1, Nat.le_refl _, ?_, ?_⟩
    · rw [open_]
      exact Nat.le_refl _
    · intro marked q' inside
      exact marked q' (open_ ▸ List.mem_cons_of_mem _ inside)
  · cases read

/-- A measured gap and what is left after it make up the text. -/
theorem measure_length {heeded inComment : Bool} {g' : Gap}
    (measured : g.measure heeded inComment text = some (g', rest)) :
    g'.length + rest.length = g.length + text.length := by
  fun_induction Gap.measure heeded g inComment text with
  | case1 | case13 =>
    cases measured
    rfl
  | case9 | case12 => cases measured
  | case10 =>
    rename_i ih
    exact ih measured
  | _ =>
    rename_i ih
    rw [ih measured]
    simp only [Gap.grow, Gap.breakLine, List.length_cons]
    omega

/-- The opening of a string literal opens one, and leaves the blocks as they are. -/
theorem nextOpening_takes (fits : g.length + rest.length = text.length)
    (read : l.nextOpening g rest = some (t, n, l')) : l.Takes text t n l' := by
  obtain ⟨⟨q, length⟩, opened, same⟩ := Option.map_eq_some_iff.1 read
  obtain ⟨low, high, mark⟩ := opening_within opened
  cases same
  refine ⟨by omega, fun _ _ => by omega, ?_, ?_, ?_⟩
  · simpa using remember_indents { l with quotes := q :: l.quotes, inFormat := q.format }
  · simpa using remember_quotes { l with quotes := q :: l.quotes, inFormat := q.format }
  · intro marked
    apply remember_marked
    rintro q' (_ | ⟨_, inside⟩)
    · exact mark
    · exact marked q' inside

theorem nextOutside_takes (read : l.nextOutside expects text = some (t, n, l')) :
    l.Takes text t n l' := by
  simp only [Layout.nextOutside] at read
  split at read
  · cases read
  · next g rest measured =>
    have fits := measure_length measured
    split at read
    · next found line =>
      cases read
      split at line
      · exact nextLine_takes line text
      · cases line
    · split at read
      · exact nextOpening_takes (by simpa [Gap.empty] using fits) read
      · cases read

theorem next_takes (read : l.next expects text = some (t, n, l')) : l.Takes text t n l' := by
  unfold Layout.next at read
  split at read
  · next q outer c rest open_ =>
    split at read
    · split at read
      · next twice =>
        cases read
        have long : 1 ≤ rest.length := by
          cases rest with
          | nil => cases twice
          | cons d ds => simp
        refine ⟨?_, fun _ _ => by omega, Nat.le_refl _, Nat.le_refl _, id⟩
        rw [List.length_cons]
        omega
      · cases read
    · split at read
      · exact nextInside_takes open_ read
      · exact nextOutside_takes read
  · exact nextOutside_takes read

/-! ## Lexemes -/

variable {afterBlank : Bool} {m : Match}

theorem lexeme_takes_text : ∀ x ∈ lexemes, x.text.takesBlank = false := by
  decide

theorem better_cases (best : Option Match) (m : Match) :
    Match.better best m = some m ∨ Match.better best m = best := by
  cases best with
  | none => exact .inl rfl
  | some b =>
    rw [Match.better]
    split
    · exact .inl rfl
    · exact .inr rfl

/-- The best match is the match of a lexeme. -/
theorem bestMatch_sound (found : bestMatch expects afterBlank text = some m) :
    m.lexeme ∈ lexemes ∧ m.lexeme.text.longest text = some m.length := by
  have all : ∀ m, bestMatch expects afterBlank text = some m →
      m.lexeme ∈ lexemes ∧ m.lexeme.text.longest text = some m.length := by
    refine List.foldlRecOn (motive := fun best : Option Match => ∀ m, best = some m →
      m.lexeme ∈ lexemes ∧ m.lexeme.text.longest text = some m.length) lexemes _ ?_ ?_
    · intro m no
      cases no
    · intro best sound x among m found
      split at found
      · exact sound m found
      · split at found
        · exact sound m found
        · next length matches_ =>
          rcases better_cases best ⟨x, length⟩ with new | old
          · rw [new] at found
            cases found
            exact ⟨among, matches_⟩
          · exact sound m (old ▸ found)
  exact all m found

/-- The best match takes a character at least, and no more than there are. -/
theorem bestMatch_bounds (found : bestMatch expects afterBlank text = some m) :
    1 ≤ m.length ∧ m.length ≤ text.length := by
  obtain ⟨among, longest⟩ := bestMatch_sound found
  have bounds := Pattern.longest_bounds longest
  exact ⟨bounds.2 (lexeme_takes_text _ among), bounds.1⟩

theorem lexemes_plain : ∀ x ∈ lexemes, x.token.isLayout = false ∧ x.token ≠ .endOfText ∧
    x.token ≠ .stringStart ∧ x.token ≠ .stringEnd := by
  decide

theorem keywords_plain : ∀ k ∈ keywords, k.1.isLayout = false ∧ k.1 ≠ .endOfText ∧
    k.1 ≠ .stringStart ∧ k.1 ≠ .stringEnd := by
  decide

/-- The token that a match at the start of a text is read as. -/
def Match.readAs (m : Match) (expects : Token → Bool) (text : List Char) : Token :=
  if m.lexeme.token = .name then (keywordOf? expects (text.take m.length)).getD .name
  else m.lexeme.token

/-- What a lexeme is read as is no token of the layout or of a string literal's quotes. -/
theorem readAs_plain (among : m.lexeme ∈ lexemes) (expects : Token → Bool) (text : List Char) :
    (m.readAs expects text).isLayout = false ∧ m.readAs expects text ≠ .endOfText ∧
      m.readAs expects text ≠ .stringStart ∧ m.readAs expects text ≠ .stringEnd := by
  unfold Match.readAs
  split
  · cases keyword : keywordOf? expects (text.take m.length) with
    | none => decide
    | some k =>
      obtain ⟨entry, found, rfl⟩ := Option.map_eq_some_iff.1 keyword
      exact keywords_plain entry (List.mem_of_find?_eq_some found)
  · exact lexemes_plain _ among

variable {blanks : List Char}

/-- A text is blanks and what follows them. -/
theorem exists_blanks (text : List Char) : ∃ blanks rest, text = blanks ++ rest ∧
    (∀ c ∈ blanks, isBlank c = true) ∧ ∀ c ∈ rest.head?, isBlank c = false := by
  refine ⟨_, _, List.takeWhile_append_dropWhile.symm, List.all_eq_true.1 List.all_takeWhile, ?_⟩
  intro c first
  have stops := List.head?_dropWhile_not isBlank text
  rw [first] at stops
  exact stops

theorem takeWhile_blanks (blank : ∀ c ∈ blanks, isBlank c = true)
    (stop : ∀ c ∈ rest.head?, isBlank c = false) : (blanks ++ rest).takeWhile isBlank = blanks := by
  have none_ : rest.takeWhile isBlank = [] := by
    cases rest with
    | nil => rfl
    | cons c cs => rw [List.takeWhile_cons_of_neg (by simp [stop c rfl])]
  rw [List.takeWhile_append_of_pos blank, none_, List.append_nil]

/-- In blanks there is nothing to read but the end of the text. -/
theorem nextLexeme_blanks (blank : ∀ c ∈ blanks, isBlank c = true) :
    nextLexeme expects blanks =
      if expects .endOfText then some (.endOfText, blanks.length) else none := by
  have all : (blanks ++ []).takeWhile isBlank = blanks := takeWhile_blanks blank nofun
  rw [List.append_nil] at all
  simp only [nextLexeme, all, List.drop_length]

/-- Blanks before a lexeme are taken with it. -/
theorem nextLexeme_of_blanks (blank : ∀ c ∈ blanks, isBlank c = true) (stop : isBlank c = false) :
    nextLexeme expects (blanks ++ c :: rest) =
      match bestMatch expects (blanks.length != 0) (c :: rest) with
      | some m => some (m.readAs expects (c :: rest), blanks.length + m.length)
      | none => if blanks ++ c :: rest = ['\\'] then some (.lineJoin, 1) else none := by
  have first : (blanks ++ c :: rest).takeWhile isBlank = blanks :=
    takeWhile_blanks blank (by simpa using stop)
  simp only [nextLexeme, first, List.drop_left]
  rfl

/-- A lexeme leaves the layout as it is. -/
theorem nextLexeme_takes (l : Layout) (read : nextLexeme expects text = some (t, n)) :
    l.Takes text t n l := by
  obtain ⟨blanks, rest, rfl, blank, stop⟩ := exists_blanks text
  cases rest with
  | nil =>
    rw [List.append_nil, nextLexeme_blanks blank] at read
    split at read
    · cases read
      exact ⟨by simp, fun _ no => absurd rfl no, Nat.le_refl _, Nat.le_refl _, id⟩
    · cases read
  | cons c cs =>
    rw [nextLexeme_of_blanks blank (stop c rfl)] at read
    split at read
    · next m found =>
      have bounds := bestMatch_bounds found
      obtain ⟨noLayout, -, noStart, noEnd⟩ :=
        readAs_plain (bestMatch_sound found).1 expects (c :: cs)
      cases read
      generalize m.readAs expects (c :: cs) = t at *
      have noIndent : t ≠ .indent := by
        rintro rfl
        cases noLayout
      have noDedent : t ≠ .dedent := by
        rintro rfl
        cases noLayout
      refine ⟨?_, fun _ _ => by omega, ?_, ?_, id⟩
      · rw [List.length_append]
        omega
      · simp only [if_neg noIndent, if_neg noDedent, Nat.le_refl]
      · simp only [if_neg noStart, if_neg noEnd, Nat.le_refl]
    · split at read
      · next joined =>
        cases read
        rw [joined]
        exact ⟨Nat.le_refl _, fun _ _ => Nat.le_refl _, Nat.le_refl _, Nat.le_refl _, id⟩
      · cases read

/-! ## Places -/

variable {p q : Place}

/-- What the next token takes of the text and does to the layout. -/
theorem Place.next_takes (read : p.next expects = some (t, q)) :
    ∃ n l', p.layout.Takes p.rest t n l' ∧ q = p.forward n l' := by
  unfold Place.next at read
  split at read
  · next found =>
    cases read
    exact ⟨_, _, Source.next_takes found, rfl⟩
  · obtain ⟨⟨t', n⟩, found, same⟩ := Option.map_eq_some_iff.1 read
    cases same
    exact ⟨_, _, nextLexeme_takes p.layout found, rfl⟩

end DefTally.Source
