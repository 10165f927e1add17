/-!
# Line ends

A line may end in a line feed, a carriage return or both; `LineBreak.unify` makes every line
end a line feed.
-/

namespace DefTally.Text.LineBreak

/-- Writes a line feed for every carriage return and the line feed that may follow it. -/
def unify : List Char → List Char
  | [] => []
  | '\r' :: '\n' :: rest => '\n' :: unify rest
  | '\r' :: rest => '\n' :: unify rest
  | c :: rest => c :: unify rest

/-- A text without carriage returns stays as it is. -/
theorem unify_of_cr_not_mem {text : List Char} (h : '\r' ∉ text) : unify text = text := by
  fun_induction unify text with
  | case1 => rfl
  | case2 rest ih => exact absurd List.mem_cons_self h
  | case3 rest _ ih => exact absurd List.mem_cons_self h
  | case4 c rest _ other ih => rw [ih fun inside => h (List.mem_cons_of_mem _ inside)]

end DefTally.Text.LineBreak
