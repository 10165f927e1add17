import DefTally.Json.Escape
import DefTally.Json.Value

/-!
# JSON lines

How a value is written on one line: a comma and a space between the parts of an array or
object, a colon and a space after a key. A value is written in many pieces (`Value.pieces`);
the line is all of them (`Value.line`).
-/

namespace DefTally.Json

/-- A number in decimal. -/
def decimal (n : Int) : List Char :=
  (if n < 0 then ['-'] else []) ++ Nat.toDigits 10 n.natAbs

/-- What stands between the parts of an array or object. -/
def separator : List Char := [',', ' ']

/-- What stands after a key. -/
def keySeparator : List Char := [':', ' ']

namespace Value

mutual

/-- The pieces in which a value is written. -/
def pieces : Value → List (List Char)
  | null => ["null".toList]
  | bool true => ["true".toList]
  | bool false => ["false".toList]
  | number n => [decimal n]
  | string s => stringPieces s
  | array items => ['['] :: itemPieces items ++ [[']']]
  | object fields => ['\x7b'] :: fieldPieces fields ++ [['\x7d']]

/-- The pieces of the items of an array. -/
def itemPieces : List Value → List (List Char)
  | [] => []
  | v :: rest => v.pieces ++ laterItemPieces rest

/-- The pieces of the items of an array after the first. -/
def laterItemPieces : List Value → List (List Char)
  | [] => []
  | v :: rest => separator :: v.pieces ++ laterItemPieces rest

/-- The pieces of the fields of an object. -/
def fieldPieces : List (String × Value) → List (List Char)
  | [] => []
  | (key, v) :: rest => stringPieces key ++ keySeparator :: v.pieces ++ laterFieldPieces rest

/-- The pieces of the fields of an object after the first. -/
def laterFieldPieces : List (String × Value) → List (List Char)
  | [] => []
  | (key, v) :: rest =>
    separator :: stringPieces key ++ keySeparator :: v.pieces ++ laterFieldPieces rest

end

/-- A value as a line of text, without the end of the line. -/
def line (v : Value) : String := String.ofList v.pieces.flatten

end Value

end DefTally.Json
