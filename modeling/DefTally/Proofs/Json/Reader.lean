import DefTally.Json.Value

/-!
# A reader of JSON texts

JSON as RFC 8259 has it: any white space between tokens, all escapes in strings, where two escapes
that are the halves of a surrogate pair make one character and a half alone makes none, and numbers
with fractions and exponents, which are read exactly. `scan` cuts a text into tokens, one character
after the other, and `runs` reads the tokens with the containers that are open on a stack. `read?`
succeeds only on a text that is one value from its start to its end.
-/

namespace DefTally.Json

/-- What a JSON text says. -/
inductive Document where
  | null
  | bool (b : Bool)
  | number (q : Rat)
  | string (s : String)
  | array (items : List Document)
  | object (fields : List (String × Document))

namespace Reader

/-! ## Numbers -/

/-- The digits of a whole number: no zero stands before other digits. -/
def isWhole : List Char → Bool
  | [] => false
  | [d] => d.isDigit
  | d :: ds => d.isDigit && d != '0' && ds.all Char.isDigit

/-- The value of digits. -/
def digitsValue (ds : List Char) : Nat := Nat.ofDigitChars 10 ds 0

/-- The fraction that a text begins with, and the rest of the text. -/
def fraction? : List Char → Option (Rat × List Char)
  | [] => some (0, [])
  | c :: rest =>
    if c = '.' then
      let ds := rest.takeWhile Char.isDigit
      if ds.isEmpty then none
      else some (digitsValue ds / 10 ^ ds.length, rest.dropWhile Char.isDigit)
    else some (0, c :: rest)

/-- The exponent that a text is; the empty text is the exponent 0. -/
def exponent? : List Char → Option Int
  | [] => some 0
  | c :: rest =>
    if c = 'e' || c = 'E' then
      let negative := rest.head? = some '-'
      let ds := if negative || rest.head? = some '+' then rest.tail else rest
      if ds.isEmpty || !ds.all Char.isDigit then none
      else some (if negative then -digitsValue ds else digitsValue ds)
    else none

/-- The value of a number without a sign. -/
def magnitude? (w : List Char) : Option Rat :=
  let whole := w.takeWhile Char.isDigit
  if isWhole whole then
    (fraction? (w.dropWhile Char.isDigit)).bind fun (fraction, rest) =>
      (exponent? rest).map fun e => (digitsValue whole + fraction) * 10 ^ e
  else none

/-- The value of a number. -/
def number? : List Char → Option Rat
  | [] => none
  | c :: rest => if c = '-' then (magnitude? rest).map (- ·) else magnitude? (c :: rest)

/-! ## Strings -/

/-- The value of a hexadecimal digit. -/
def hexValue? (c : Char) : Option Nat :=
  if c.isDigit then some (c.toNat - '0'.toNat)
  else if 'a' ≤ c && c ≤ 'f' then some (10 + c.toNat - 'a'.toNat)
  else if 'A' ≤ c && c ≤ 'F' then some (10 + c.toNat - 'A'.toNat)
  else none

/-- The UTF-16 unit of four hexadecimal digits. -/
def unit? (a b c d : Char) : Option Nat :=
  match hexValue? a, hexValue? b, hexValue? c, hexValue? d with
  | some a, some b, some c, some d => some (((a * 16 + b) * 16 + c) * 16 + d)
  | _, _, _, _ => none

/-- The unit is the first half of a surrogate pair. -/
def isHigh (u : Nat) : Bool := 0xd800 ≤ u && u < 0xdc00

/-- The unit is the second half of a surrogate pair. -/
def isLow (u : Nat) : Bool := 0xdc00 ≤ u && u < 0xe000

/-- The character of a surrogate pair. -/
def joined (high low : Nat) : Char :=
  Char.ofNat (0x10000 + (high - 0xd800) * 0x400 + (low - 0xdc00))

/-- The character that a letter after a backslash stands for. -/
def meaning? (c : Char) : Option Char :=
  if c = '"' || c = '\\' || c = '/' then some c
  else if c = 'b' then some '\x08'
  else if c = 'f' then some '\x0c'
  else if c = 'n' then some '\n'
  else if c = 'r' then some '\r'
  else if c = 't' then some '\t'
  else none

/-- What was read of a string: units of escapes, and characters. -/
inductive Part where
  | unit (u : Nat)
  | char (c : Char)

/-- The parts of the inside of a string. -/
def parts? : List Char → Option (List Part)
  | [] => some []
  | '\\' :: 'u' :: a :: b :: c :: d :: rest =>
    (unit? a b c d).bind fun u => (parts? rest).map (.unit u :: ·)
  | '\\' :: c :: rest => (meaning? c).bind fun m => (parts? rest).map (.char m :: ·)
  | c :: rest =>
    if c.toNat < 0x20 || c = '"' || c = '\\' then none else (parts? rest).map (.char c :: ·)

/-- The text of parts: the halves of surrogate pairs are joined. -/
def join? : List Part → Option (List Char)
  | [] => some []
  | .unit u :: .unit v :: rest =>
    if isHigh u then if isLow v then (join? rest).map (joined u v :: ·) else none
    else if isLow u then none
    else (join? (.unit v :: rest)).map (Char.ofNat u :: ·)
  | .unit u :: rest => if isHigh u || isLow u then none else (join? rest).map (Char.ofNat u :: ·)
  | .char c :: rest => (join? rest).map (c :: ·)

/-- The text of a string, given the inside of its quotes. -/
def unescape? (w : List Char) : Option (List Char) := (parts? w).bind join?

/-! ## Tokens -/

/-- A token of a JSON text. A string, a number or a literal name is a scalar. -/
inductive Token where
  | arrayOpen
  | arrayClose
  | objectOpen
  | objectClose
  | comma
  | colon
  | scalar (d : Document)

/-- White space between tokens. -/
def isSpace (c : Char) : Bool := c == ' ' || c == '\t' || c == '\n' || c == '\r'

/-- The token of a mark. -/
def mark? (c : Char) : Option Token :=
  if c = '[' then some .arrayOpen
  else if c = ']' then some .arrayClose
  else if c = '\x7b' then some .objectOpen
  else if c = '\x7d' then some .objectClose
  else if c = ',' then some .comma
  else if c = ':' then some .colon
  else none

/-- A character that ends a number or a literal name. -/
def separates (c : Char) : Bool := isSpace c || (mark? c).isSome || c == '"'

/-- The scalar that is written without quotes. -/
def bare? (w : List Char) : Option Document :=
  if w = "null".toList then some .null
  else if w = "true".toList then some (.bool true)
  else if w = "false".toList then some (.bool false)
  else (number? w).map .number

/-- What is being read. -/
inductive Mode where
  | between
  /-- A number or a literal name. -/
  | bare (w : List Char)
  /-- A string. -/
  | quoted (w : List Char)
  /-- A string, after a backslash. -/
  | escaped (w : List Char)

/-- What a character begins, and the token that it is. -/
def begin (c : Char) : List Token × Mode :=
  match mark? c with
  | some t => ([t], .between)
  | none => if isSpace c then ([], .between) else if c = '"' then ([], .quoted []) else ([], .bare [c])

/-- Reads a character. -/
def read (m : Mode) (c : Char) : Option (List Token × Mode) :=
  match m with
  | .between => some (begin c)
  | .bare w =>
    if separates c then (bare? w).map fun d => (.scalar d :: (begin c).1, (begin c).2)
    else some ([], .bare (w ++ [c]))
  | .quoted w =>
    if c = '"' then (unescape? w).map fun s => ([.scalar (.string (String.ofList s))], .between)
    else if c = '\\' then some ([], .escaped w)
    else some ([], .quoted (w ++ [c]))
  | .escaped w => some ([], .quoted (w ++ ['\\', c]))

/-- The last token of a text. -/
def finish : Mode → Option (List Token)
  | .between => some []
  | .bare w => (bare? w).map fun d => [.scalar d]
  | .quoted _ | .escaped _ => none

/-- The tokens of a text. -/
def scan (m : Mode) : List Char → Option (List Token)
  | [] => finish m
  | c :: rest => (read m c).bind fun (tokens, m) => (scan m rest).map (tokens ++ ·)

/-! ## Values -/

/-- A container that is open, with what it holds so far. -/
inductive Frame where
  | array (items : List Document)
  /-- The value of the key comes next. -/
  | field (fields : List (String × Document)) (key : String)

/-- What comes next; the innermost container comes first. -/
inductive State where
  | value (outer : List Frame)
  | firstItem (outer : List Frame)
  | afterItem (items : List Document) (outer : List Frame)
  | firstKey (outer : List Frame)
  | nextKey (fields : List (String × Document)) (outer : List Frame)
  | afterKey (fields : List (String × Document)) (key : String) (outer : List Frame)
  | afterField (fields : List (String × Document)) (outer : List Frame)
  | done (d : Document)

/-- Puts a value where it belongs. -/
def put (d : Document) : List Frame → State
  | [] => .done d
  | .array items :: outer => .afterItem (items ++ [d]) outer
  | .field fields key :: outer => .afterField (fields ++ [(key, d)]) outer

/-- Begins a value. -/
def start (outer : List Frame) : Token → Option State
  | .scalar d => some (put d outer)
  | .arrayOpen => some (.firstItem outer)
  | .objectOpen => some (.firstKey outer)
  | _ => none

/-- Reads a token. -/
def step : State → Token → Option State
  | .value outer, t => start outer t
  | .firstItem outer, .arrayClose => some (put (.array []) outer)
  | .firstItem outer, t => start (.array [] :: outer) t
  | .afterItem items outer, .comma => some (.value (.array items :: outer))
  | .afterItem items outer, .arrayClose => some (put (.array items) outer)
  | .firstKey outer, .objectClose => some (put (.object []) outer)
  | .firstKey outer, .scalar (.string key) => some (.afterKey [] key outer)
  | .nextKey fields outer, .scalar (.string key) => some (.afterKey fields key outer)
  | .afterKey fields key outer, .colon => some (.value (.field fields key :: outer))
  | .afterField fields outer, .comma => some (.nextKey fields outer)
  | .afterField fields outer, .objectClose => some (put (.object fields) outer)
  | _, _ => none

/-- Reads tokens. -/
def runs (s : State) : List Token → Option State
  | [] => some s
  | t :: ts => (step s t).bind fun s => runs s ts

/-- The value that tokens are. -/
def value? (tokens : List Token) : Option Document :=
  match runs (.value []) tokens with
  | some (.done d) => some d
  | _ => none

end Reader

/-- What a JSON text says, if it is one. -/
def read? (text : String) : Option Document := (Reader.scan .between text.toList).bind Reader.value?

end DefTally.Json
