/-!
# Splitting text

Cutting a text at every place where a character stands.
-/

namespace DefTally.Text

/-- The parts of a text between the places where a character stands: one more than there are
such places. -/
def splitAt (separator : Char) : List Char → List (List Char)
  | [] => [[]]
  | c :: rest =>
    if c = separator then [] :: splitAt separator rest
    else match splitAt separator rest with
      | [] => [[c]]
      | part :: parts => (c :: part) :: parts

end DefTally.Text
