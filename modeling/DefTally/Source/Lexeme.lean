import DefTally.Source.Token
import DefTally.Text.Identifier
import DefTally.Text.Pattern

/-!
# Lexemes

The text of every token that does not depend on the layout of lines, and `nextLexeme`, which
reads one of them. Among the tokens that can stand at a place the one of greater weight wins,
then the longer one, then a fixed spelling, then the one listed first. A word is read as a
keyword only where that keyword can stand.
-/

namespace DefTally.Source

open DefTally.Text
open DefTally.Text.Pattern (one among chain oneOf literal plus times star)

namespace Lexeme

def digit : Pattern := .char Char.isDigit

def hexDigit : Pattern := .char fun c => c.isDigit || ('a' ≤ c && c ≤ 'f') || ('A' ≤ c && c ≤ 'F')

/-- Digits, each of which may be followed by one underscore. -/
def digits : Pattern := chain [digit, star (chain [(one '_').optional, digit]), (one '_').optional]

/-- Digits of another base, each of which may come after one underscore. -/
def digitsOf (d : Pattern) : Pattern := plus (chain [(one '_').optional, d])

/-- A whole number with the letters that introduce its base. -/
def basedInteger (letter : String) (d : Pattern) : Pattern :=
  chain [one '0', among letter, digitsOf d, (among "lL").optional]

def integer : Pattern :=
  oneOf [basedInteger "xX" hexDigit, basedInteger "oO" (.char fun c => '0' ≤ c && c ≤ '7'),
    basedInteger "bB" (among "01"), chain [digits, (among "lLjJ").optional]]

def exponent : Pattern := chain [among "eE", (among "+-").optional, digits]

def float : Pattern :=
  chain [
    oneOf [chain [digits, oneOf [chain [one '.', digits.optional, exponent.optional], exponent]],
      chain [one '.', digits, exponent.optional]],
    (among "jJ").optional]

/-- A word: a name or a keyword. -/
def word : Pattern := chain [.char Identifier.isStart, star (.char Identifier.isContinue)]

/-- What a backslash in a string literal makes one character of. -/
def escape : Pattern :=
  chain [one '\\', oneOf [
    chain [one 'u', times 4 hexDigit],
    chain [one 'U', times 8 hexDigit],
    chain [one 'x', times 2 hexDigit],
    chain [digit, digit.optional, digit.optional],
    one '\n',
    among "'\"abfrntv\\",
    chain [literal "N\x7b", plus (.char (· != '\x7d')), one '\x7d']]]

def conversion : Pattern := chain [one '!', .char fun c => 'a' ≤ c && c ≤ 'z']

def formatText : Pattern := plus (.char fun c => c != '\x7b' && c != '\x7d' && c != '\n')

def comment : Pattern := chain [one '#', star (.char (· != '\n'))]

end Lexeme

/-- A token with its text. -/
structure Lexeme where
  token : Token
  text : Pattern
  /-- Greater weights win over longer texts. -/
  weight : Nat
  /-- The token has one fixed spelling. -/
  fixed : Bool
  /-- No blanks may come before the token. -/
  glued : Bool

/-- The lexemes of one fixed spelling, other than keywords. -/
def spelledLexemes : List Lexeme :=
  Token.all.filterMap fun t =>
    if t.isKeyword then none else t.spelling.map fun s => ⟨t, .literal s, 0, true, false⟩

/-- All lexemes but the end of the text and keywords, which are read as words. -/
def lexemes : List Lexeme :=
  [⟨.name, Lexeme.word, 0, false, false⟩,
    ⟨.integer, Lexeme.integer, 0, false, false⟩,
    ⟨.float, Lexeme.float, 0, false, false⟩,
    ⟨.escape, Lexeme.escape, 1, false, true⟩,
    ⟨.loneBackslash, .one '\\', 0, true, true⟩,
    ⟨.conversion, Lexeme.conversion, 0, false, false⟩,
    ⟨.formatText, Lexeme.formatText, 1, false, false⟩,
    ⟨.comment, Lexeme.comment, 0, false, false⟩,
    ⟨.lineJoin, .literal "\\\n", 0, false, false⟩] ++ spelledLexemes

/-- The keywords with their spellings. -/
def keywords : List (Token × List Char) :=
  Token.all.filterMap fun t =>
    if t.isKeyword then t.spelling.map fun s => (t, s.toList) else none

/-- A character that separates tokens and means nothing else to the grammar. -/
def isBlank (c : Char) : Bool :=
  c == ' ' || ('\t' ≤ c && c ≤ '\r') || c == '\u200b' || c == '\u2060' || c == '\ufeff'

/-- A lexeme that was found, with the length of its text. -/
structure Match where
  lexeme : Lexeme
  length : Nat

namespace Match

/-- The first match wins over the second. -/
def beats (m n : Match) : Bool :=
  if m.lexeme.weight ≠ n.lexeme.weight then n.lexeme.weight < m.lexeme.weight
  else if m.length ≠ n.length then n.length < m.length
  else m.lexeme.fixed && !n.lexeme.fixed

/-- The better of two matches, of which the first was found first. -/
def better : Option Match → Match → Option Match
  | none, m => some m
  | some best, m => if m.beats best then some m else some best

end Match

/-- A token that is ignored or can stand here. A word can stand where a name or some keyword
can. -/
def mayStand (expects : Token → Bool) (t : Token) : Bool :=
  t.isIgnored || expects t || (t == .name && keywords.any fun k => expects k.1)

/-- The best match at the start of the text. `afterBlank` tells that blanks were skipped. -/
def bestMatch (expects : Token → Bool) (afterBlank : Bool) (text : List Char) : Option Match :=
  lexemes.foldl (fun best l =>
    if (l.glued && afterBlank) || !mayStand expects l.token then best
    else match l.text.longest text with
      | none => best
      | some length => Match.better best ⟨l, length⟩) none

/-- The keyword that a word is read as, if that keyword can stand here. -/
def keywordOf? (expects : Token → Bool) (word : List Char) : Option Token :=
  (keywords.find? fun k => k.2 = word && expects k.1).map (·.1)

/-- The next token that does not depend on the layout of lines, with the number of characters
up to its end. A backslash at the end of the text joins its line to nothing, but only if it
comes right after the token before. -/
def nextLexeme (expects : Token → Bool) (text : List Char) : Option (Token × Nat) :=
  let blanks := (text.takeWhile isBlank).length
  let rest := text.drop blanks
  match rest with
  | [] => if expects .endOfText then some (.endOfText, blanks) else none
  | _ =>
    match bestMatch expects (blanks != 0) rest with
    | some m =>
      let token := if m.lexeme.token = .name then
          (keywordOf? expects (rest.take m.length)).getD .name
        else m.lexeme.token
      some (token, blanks + m.length)
    | none => if text = ['\\'] then some (.lineJoin, 1) else none

end DefTally.Source
