import DefTally.Dictionary

/-!
# JSON values

The values that are written, with whole numbers only. An object has its fields in the order in
which they are written; `Value.object` puts them in the order of their keys.
-/

namespace DefTally.Json

/-- A JSON value. -/
inductive Value where
  | null
  | bool (b : Bool)
  | number (n : Int)
  | string (s : String)
  | array (items : List Value)
  | object (fields : List (String × Value))
  deriving Repr

namespace Value

/-- The object of the entries of a dictionary. -/
def ofDictionary (d : Dictionary Value) : Value := .object d.toList

/-- The object of some fields, in the order of their keys; of those with one key, the last one
stays. -/
def ofFields (fields : List (String × Value)) : Value := ofDictionary (.ofList fields)

end Value

end DefTally.Json
