/-!
# The tokens of a Python module

Tokens are what the grammar is written in: the layout tokens that stand for line ends and
changes of indentation, names and numbers, the parts of a string literal, comments and joined
lines, and the tokens with one fixed spelling. Keywords are spelled like names; whether a
word is a keyword is decided where it is read.
-/

namespace DefTally.Source

/-- A kind of token. -/
inductive Token where
  -- the end of the text and the layout of its lines
  | endOfText | newline | indent | dedent
  -- names and numbers
  | name | integer | float
  -- the parts of string literals
  | stringStart | stringText | stringEnd | doubledBrace | escape | loneBackslash | conversion
  | formatText
  -- what may stand anywhere and means nothing
  | comment | lineJoin
  -- keywords
  | kwAnd | kwAs | kwAssert | kwAsync | kwAwait | kwBreak | kwCase | kwClass | kwContinue
  | kwDef | kwDel | kwElif | kwElse | kwExcept | kwExec | kwFalse | kwFinally | kwFor | kwFrom
  | kwGlobal | kwIf | kwImport | kwIn | kwIs | kwLambda | kwMatch | kwNone | kwNonlocal | kwNot
  | kwOr | kwPass | kwPrint | kwRaise | kwReturn | kwTrue | kwTry | kwType | kwWhile | kwWith
  | kwYield | kwUnderscore | kwFuture
  -- brackets and marks
  | exceptStar
  | parenOpen | parenClose | bracketOpen | bracketClose | braceOpen | braceClose | comma | colon
  | semicolon | dot | ellipsis | arrow | at | assign | walrus
  -- operators
  | plus | minus | star | doubleStar | slash | doubleSlash | percent | bar | ampersand | caret
  | tilde | shiftLeft | shiftRight | less | lessEqual | equal | unequal | greaterEqual | greater
  | lessGreater | plusAssign | minusAssign | starAssign | slashAssign | atAssign
  | doubleSlashAssign | percentAssign | doubleStarAssign | shiftRightAssign | shiftLeftAssign
  | ampersandAssign | caretAssign | barAssign
  deriving DecidableEq, Repr

namespace Token

/-- The number of a token in the grammar. -/
def number (t : Token) : Nat := t.ctorIdx

/-- How many tokens there are. -/
def count : Nat := Token.barAssign.number + 1

/-- All tokens, by number. -/
def all : List Token := (List.range count).map ofNat

/-- The text of a token that is always spelled alike. -/
def spelling : Token → Option String
  | .kwAnd => some "and"
  | .kwAs => some "as"
  | .kwAssert => some "assert"
  | .kwAsync => some "async"
  | .kwAwait => some "await"
  | .kwBreak => some "break"
  | .kwCase => some "case"
  | .kwClass => some "class"
  | .kwContinue => some "continue"
  | .kwDef => some "def"
  | .kwDel => some "del"
  | .kwElif => some "elif"
  | .kwElse => some "else"
  | .kwExcept => some "except"
  | .kwExec => some "exec"
  | .kwFalse => some "False"
  | .kwFinally => some "finally"
  | .kwFor => some "for"
  | .kwFrom => some "from"
  | .kwGlobal => some "global"
  | .kwIf => some "if"
  | .kwImport => some "import"
  | .kwIn => some "in"
  | .kwIs => some "is"
  | .kwLambda => some "lambda"
  | .kwMatch => some "match"
  | .kwNone => some "None"
  | .kwNonlocal => some "nonlocal"
  | .kwNot => some "not"
  | .kwOr => some "or"
  | .kwPass => some "pass"
  | .kwPrint => some "print"
  | .kwRaise => some "raise"
  | .kwReturn => some "return"
  | .kwTrue => some "True"
  | .kwTry => some "try"
  | .kwType => some "type"
  | .kwWhile => some "while"
  | .kwWith => some "with"
  | .kwYield => some "yield"
  | .kwUnderscore => some "_"
  | .kwFuture => some "__future__"
  | .exceptStar => some "except*"
  | .parenOpen => some "("
  | .parenClose => some ")"
  | .bracketOpen => some "["
  | .bracketClose => some "]"
  | .braceOpen => some "\x7b"
  | .braceClose => some "\x7d"
  | .comma => some ","
  | .colon => some ":"
  | .semicolon => some ";"
  | .dot => some "."
  | .ellipsis => some "..."
  | .arrow => some "->"
  | .at => some "@"
  | .assign => some "="
  | .walrus => some ":="
  | .plus => some "+"
  | .minus => some "-"
  | .star => some "*"
  | .doubleStar => some "**"
  | .slash => some "/"
  | .doubleSlash => some "//"
  | .percent => some "%"
  | .bar => some "|"
  | .ampersand => some "&"
  | .caret => some "^"
  | .tilde => some "~"
  | .shiftLeft => some "<<"
  | .shiftRight => some ">>"
  | .less => some "<"
  | .lessEqual => some "<="
  | .equal => some "=="
  | .unequal => some "!="
  | .greaterEqual => some ">="
  | .greater => some ">"
  | .lessGreater => some "<>"
  | .plusAssign => some "+="
  | .minusAssign => some "-="
  | .starAssign => some "*="
  | .slashAssign => some "/="
  | .atAssign => some "@="
  | .doubleSlashAssign => some "//="
  | .percentAssign => some "%="
  | .doubleStarAssign => some "**="
  | .shiftRightAssign => some ">>="
  | .shiftLeftAssign => some "<<="
  | .ampersandAssign => some "&="
  | .caretAssign => some "^="
  | .barAssign => some "|="
  | _ => none

/-- A token that is spelled like a name. -/
def isKeyword (t : Token) : Bool := Token.kwAnd.number ≤ t.number && t.number ≤ Token.kwFuture.number

/-- A token that may stand between any two tokens and plays no part in the grammar. -/
def isIgnored : Token → Bool
  | comment | lineJoin => true
  | _ => false

end Token

end DefTally.Source
