/-!
# Slices of a text

A slice is cut out of a text between two positions, which are counted in the bytes that the
characters before them take in UTF-8. A position inside a character is none, and there is no
slice from or to it.
-/

namespace DefTally.Text

/-- How many bytes a text takes in UTF-8. -/
def utf8Length : List Char → Nat
  | [] => 0
  | c :: rest => c.utf8Size + utf8Length rest

/-- The text from a byte position on. -/
def dropBytes? : Nat → List Char → Option (List Char)
  | 0, text => some text
  | _ + 1, [] => none
  | n + 1, c :: rest => if c.utf8Size ≤ n + 1 then dropBytes? (n + 1 - c.utf8Size) rest else none

/-- The text up to a byte position. -/
def takeBytes? : Nat → List Char → Option (List Char)
  | 0, _ => some []
  | _ + 1, [] => none
  | n + 1, c :: rest =>
    if c.utf8Size ≤ n + 1 then (takeBytes? (n + 1 - c.utf8Size) rest).map (c :: ·) else none

/-- The text from one byte position to another. -/
def slice? (text : List Char) (start stop : Nat) : Option (List Char) :=
  if start ≤ stop then (dropBytes? start text).bind (takeBytes? (stop - start)) else none

theorem utf8Length_append (a b : List Char) :
    utf8Length (a ++ b) = utf8Length a + utf8Length b := by
  induction a with
  | nil => simp [utf8Length]
  | cons c rest ih => simp [utf8Length, ih, Nat.add_assoc]

/-- A character takes at least one byte. -/
theorem utf8Length_cons (c : Char) (rest : List Char) :
    ∃ n, utf8Length (c :: rest) = n + 1 ∧ n + 1 - c.utf8Size = utf8Length rest ∧
      c.utf8Size ≤ n + 1 := by
  have := c.utf8Size_pos
  exact ⟨c.utf8Size + utf8Length rest - 1, by simp only [utf8Length]; omega, by omega, by omega⟩

theorem dropBytes?_utf8Length (a b : List Char) :
    dropBytes? (utf8Length a) (a ++ b) = some b := by
  induction a with
  | nil => rw [utf8Length, List.nil_append, dropBytes?]
  | cons c rest ih =>
    obtain ⟨n, length, less, fits⟩ := utf8Length_cons c rest
    rw [length, List.cons_append, dropBytes?, if_pos fits, less, ih]

theorem takeBytes?_utf8Length (a b : List Char) :
    takeBytes? (utf8Length a) (a ++ b) = some a := by
  induction a with
  | nil => rw [utf8Length, takeBytes?]
  | cons c rest ih =>
    obtain ⟨n, length, less, fits⟩ := utf8Length_cons c rest
    rw [length, List.cons_append, takeBytes?, if_pos fits, less, ih, Option.map_some]

/-- The text between two positions that lie between characters. -/
theorem slice?_append (a b c : List Char) :
    slice? (a ++ (b ++ c)) (utf8Length a) (utf8Length (a ++ b)) = some b := by
  have length := utf8Length_append a b
  rw [slice?, if_pos (by omega), dropBytes?_utf8Length, Option.bind_some,
    show utf8Length (a ++ b) - utf8Length a = utf8Length b by omega, takeBytes?_utf8Length]

end DefTally.Text
