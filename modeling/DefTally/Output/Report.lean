import DefTally.Json.Value

/-!
# Error reports

An error is told in two ways: as a JSON object on the output, and as a text with the chain of
its causes, outermost first.
-/

namespace DefTally.Output

open DefTally.Json

/-- An error as an object of the output. -/
structure ErrorReport where
  error : String
  deriving DecidableEq, Repr

namespace ErrorReport

/-- What is said when there is not exactly one folder. -/
def folderPathRequired : ErrorReport := ⟨"Folder path required"⟩

/-- A report as a JSON value. -/
def toValue (r : ErrorReport) : Value := .object [("error", .string r.error)]

end ErrorReport

/-- A number, set to the right in five columns. -/
def numberColumn (n : Nat) : String :=
  let digits := Nat.toDigits 10 n
  String.ofList (List.replicate (5 - digits.length) ' ' ++ digits)

/-- A text with a margin before each of its lines but the first. -/
def setIn (margin text : String) : String :=
  String.ofList (text.toList.flatMap fun c => if c = '\n' then c :: margin.toList else [c])

/-- The lines for the causes of an error: numbered, if there are several. -/
def causeLines (causes : List String) : List String :=
  match causes with
  | [cause] => ["    " ++ setIn "    " cause]
  | _ => causes.zipIdx.map fun (cause, n) => numberColumn n ++ ": " ++ setIn "       " cause

/-- The text for an error and its causes. -/
def chainText (message : String) (causes : List String) : String :=
  "Error: " ++ message ++ "\n" ++
    if causes.isEmpty then ""
    else "\nCaused by:\n" ++ String.join ((causeLines causes).map (· ++ "\n"))

end DefTally.Output
