import DefTally.Source.Token

/-!
# The layout of lines and the insides of strings

Some tokens depend on what came before: the ends of lines and the changes of indentation, and
everything between the quotes of a string literal. `Layout` is what has to be remembered for
them, and `Layout.next` reads the next such token, if there is one. It is told which tokens
can stand, for an end of line counts only where the grammar has a use for it.
-/

namespace DefTally.Source

/-- A string literal that is open. -/
structure Quote where
  mark : Char
  triple : Bool
  raw : Bool
  bytes : Bool
  /-- Curly brackets hold expressions. -/
  format : Bool
  deriving DecidableEq, Repr

/-- What the cut into tokens remembers. -/
structure Layout where
  /-- The widths of the open blocks, the innermost first. -/
  indents : List Nat
  /-- The open string literals, the innermost first. -/
  quotes : List Quote
  /-- The string literal that was opened last expects expressions and is not closed. -/
  inFormat : Bool
  deriving DecidableEq, Repr

/-- What is found inside a string literal. -/
inductive Inside where
  /-- Text of the given length. -/
  | text (length : Nat)
  /-- The closing quote, which ends after so many characters. -/
  | close (length : Nat)
  /-- Something else, or nothing. -/
  | other
  deriving DecidableEq, Repr

namespace Inside

/-- Text, if there is any. -/
def textIf (seen : Bool) (length : Nat) : Inside := if seen then text length else other

end Inside

namespace Quote

/-- A character that would end a string literal or a backslash, which a backslash in a raw
string keeps from doing so. -/
def shielded (q : Quote) (c : Char) : Bool := c == q.mark || c == '\\'

/-- What comes at a mark of the string literal; `rest` is the text after the mark. -/
def atMark (q : Quote) (read : Nat) (seen : Bool) (rest : List Char) : Inside :=
  if q.triple then
    match rest with
    | c :: d :: _ =>
      if c ≠ q.mark then .text (read + 1)
      else if d ≠ q.mark then .text (read + 2)
      else if seen then .text read
      else .close (read + 3)
    | [c] => if c ≠ q.mark then .text (read + 1) else .text (read + 2)
    | [] => .text (read + 1)
  else if seen then .text read
  else .close (read + 1)

/-- What the text inside a string literal begins with; `read` characters came before, and
`seen` tells whether there is text among them. A backslash ends a run of text, so that it is
read as an escape, except in a raw string, and except before a letter that makes no escape in
a bytes string. -/
def inside (q : Quote) (read : Nat) (seen : Bool) : List Char → Inside
  | [] => .other
  | c :: rest =>
    if q.format && (c == '\x7b' || c == '\x7d') then .textIf seen read
    else if c = '\\' then
      if q.raw then
        match rest with
        | [] => .other
        | d :: rest' =>
          if q.shielded d then
            match rest' with
            | [] => .other
            | e :: rest'' =>
              if e = '\n' then q.inside (read + 3) seen rest''
              else q.inside (read + 2) seen (e :: rest'')
          else if d = '\n' then q.inside (read + 2) seen rest'
          else q.inside (read + 1) seen (d :: rest')
      else if q.bytes then
        match rest with
        | d :: _ :: rest' =>
          if d = 'N' || d = 'u' || d = 'U' then q.inside (read + 3) true rest'
          else .textIf seen read
        | [d] => if d = 'N' || d = 'u' || d = 'U' then .other else .textIf seen read
        | [] => .textIf seen read
      else .textIf seen read
    else if c = q.mark then q.atMark read seen rest
    else if c = '\n' && seen && !q.triple then .other
    else q.inside (read + 1) true rest

/-- Opens a string literal: its prefix letters and its quotes. The answer tells their length
together. -/
def opening (read : Nat) (q : Quote) : List Char → Option (Quote × Nat)
  | [] => none
  | c :: rest =>
    if c = 'f' || c = 'F' then opening (read + 1) { q with format := true } rest
    else if c = 'r' || c = 'R' then opening (read + 1) { q with raw := true } rest
    else if c = 'b' || c = 'B' then opening (read + 1) { q with bytes := true } rest
    else if c = 'u' || c = 'U' then opening (read + 1) q rest
    else if c = '`' then some ({ q with mark := c }, read + 1)
    else if c = '\'' || c = '"' then
      match rest with
      | d :: e :: _ =>
        if d = c && e = c then some ({ q with mark := c, triple := true }, read + 3)
        else some ({ q with mark := c }, read + 1)
      | _ => some ({ q with mark := c }, read + 1)
    else none

/-- A string literal of which nothing is read yet. -/
def unread : Quote := ⟨' ', false, false, false, false⟩

end Quote

/-- What lies between a token and the next one. -/
structure Gap where
  /-- A line ends in it. -/
  newLine : Bool
  /-- The indentation of its last line. -/
  width : Nat
  /-- The indentation of its first comment. -/
  comment : Option Nat
  /-- How many characters it has. -/
  length : Nat
  deriving DecidableEq, Repr

namespace Gap

/-- A gap of which nothing is read yet. -/
def empty : Gap := ⟨false, 0, none, 0⟩

/-- The gap with more characters, which leave the last line `width` wide. -/
def grow (g : Gap) (width count : Nat) : Gap :=
  { g with width, length := g.length + count }

/-- The gap with the end of a line. -/
def breakLine (g : Gap) : Gap := { g with newLine := true, width := 0, length := g.length + 1 }

/-- Measures the gap at the start of a text. Comments belong to the gap only if `heeded`,
and only after the end of a line: `none` if there is one before it, and also if a backslash
stands anywhere but at the end of a line. `inComment` tells that a comment is being read. -/
def measure (heeded : Bool) (g : Gap) (inComment : Bool) : List Char → Option (Gap × List Char)
  | [] => some ({ g with newLine := true, width := 0 }, [])
  | c :: rest =>
    if inComment then
      if c = '\n' then measure heeded (g.grow 0 1) false rest
      else measure heeded (g.grow g.width 1) true rest
    else if c = '\n' then measure heeded g.breakLine false rest
    else if c = ' ' then measure heeded (g.grow (g.width + 1) 1) false rest
    else if c = '\x0c' || c = '\r' then measure heeded (g.grow 0 1) false rest
    else if c = '\t' then measure heeded (g.grow (g.width + 8) 1) false rest
    else if c = '#' && heeded then
      if g.newLine then
        measure heeded { g.grow g.width 1 with comment := g.comment <|> some g.width } true rest
      else none
    else if c = '\\' then
      match rest with
      | [] => measure heeded (g.grow g.width 1) false []
      | d :: rest' => if d = '\n' then measure heeded (g.grow g.width 2) false rest' else none
    else some (g, c :: rest)

end Gap

namespace Layout

/-- No block and no string literal is open. -/
def outermost : Layout := ⟨[], [], false⟩

/-- The width of the innermost block. -/
def width (l : Layout) : Nat := l.indents.headD 0

/-- A layout with as much as is remembered: 255 string literals, and 1022 string literals and
blocks together. -/
def remember (l : Layout) : Layout :=
  let quotes := l.quotes.drop (l.quotes.length - 255)
  { l with quotes, indents := l.indents.drop (l.indents.length - (1022 - quotes.length)) }

/-- The token inside a string literal. -/
def nextInside (l : Layout) (q : Quote) (outer : List Quote) (text : List Char) :
    Option (Token × Nat × Layout) :=
  match q.inside 0 false text with
  | .text length => some (.stringText, length, l)
  | .close length => some (.stringEnd, length, { l with quotes := outer, inFormat := false })
  | .other => none

/-- The token that opens a string literal after a gap. -/
def nextOpening (l : Layout) (gap : Gap) (text : List Char) : Option (Token × Nat × Layout) :=
  (Quote.opening gap.length .unread text).map fun (q, length) =>
    (.stringStart, length, remember { l with quotes := q :: l.quotes, inFormat := q.format })

/-- The text goes on with a quotation mark. -/
def atQuotationMark : List Char → Bool
  | c :: _ => c == '"' || c == '\'' || c == '`'
  | [] => false

/-- The token for the end of a line or a change of indentation. The width of a block is
remembered modulo 256. A block ends where a line is less wide, also where the grammar does
not ask for its end, unless something else is awaited there: the end of the line, a string
literal that begins, or a closing bracket. -/
def nextLine (expects : Token → Bool) (l : Layout) (gap : Gap) (text : List Char) :
    Option (Token × Nat × Layout) :=
  let inBrackets := expects .parenClose || expects .bracketClose || expects .braceClose
  let awaited := expects .newline || (expects .stringStart && atQuotationMark text) || inBrackets
  let commentOutside := match gap.comment with
    | none => true
    | some w => w < l.width
  if expects .indent && l.width < gap.width then
    some (.indent, 0, remember { l with indents := gap.width % 256 :: l.indents })
  else if (expects .dedent || !awaited) && gap.width < l.width && !l.inFormat && commentOutside then
    some (.dedent, 0, { l with indents := l.indents.tail })
  else if expects .newline then some (.newline, 0, l)
  else none

/-- The token after the gap that the text begins with. -/
def nextOutside (expects : Token → Bool) (l : Layout) (text : List Char) :
    Option (Token × Nat × Layout) :=
  let heeded := expects .indent || expects .dedent || expects .newline || expects .kwExcept
  match Gap.empty.measure heeded false text with
  | none => none
  | some (gap, rest) =>
    let line := if gap.newLine then l.nextLine expects gap rest else none
    match line with
    | some found => some found
    | none =>
      if gap.comment.isNone && expects .stringStart then l.nextOpening gap rest else none

/-- The next token that depends on the layout, with the number of characters up to its end
and the layout after it. -/
def next (expects : Token → Bool) (l : Layout) (text : List Char) :
    Option (Token × Nat × Layout) :=
  match l.quotes, text with
  | q :: outer, c :: rest =>
    if expects .doubledBrace && q.format && (c == '\x7b' || c == '\x7d') then
      if rest.head? = some c then some (.doubledBrace, 2, l) else none
    else if expects .stringText then l.nextInside q outer text
    else l.nextOutside expects text
  | _, _ => l.nextOutside expects text

end Layout

end DefTally.Source
