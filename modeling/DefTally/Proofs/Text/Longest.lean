import DefTally.Text.Pattern

/-!
# How much of a text a pattern needs

A pattern that comes to nothing within the beginning of a text has its longest match there,
whatever follows (`longest_append`). A repetition of characters of one class ends at the first
character of another class (`longestFrom_star`). A match is no longer than the text
(`longest_bounds`), and it is the same with a character more that no text of the pattern ends in
(`longestFrom_concat`).
-/

namespace DefTally.Text.Pattern

/-- The pattern comes to nothing before the text ends. -/
def dies : Pattern → List Char → Bool
  | _, [] => false
  | p, c :: cs => match p.after c with
    | never => true
    | q => dies q cs

variable {p : Pattern} {isIn : Char → Bool} {u : List Char} {c : Char}

theorem dies_append (h : p.dies u = true) (v : List Char) : p.dies (u ++ v) = true := by
  induction u generalizing p with
  | nil => cases h
  | cons c cs ih =>
    rw [dies] at h
    rw [List.cons_append, dies]
    split
    · rfl
    · next next =>
      split at h
      · next dead => exact absurd dead next
      · exact ih h

theorem longestFrom_append (read : Nat) (best : Option Nat) (h : p.dies u = true) (v : List Char) :
    longestFrom read best p (u ++ v) = longestFrom read best p u := by
  induction u generalizing read best p with
  | nil => simp [dies] at h
  | cons c cs ih =>
    rw [dies] at h
    rw [List.cons_append, longestFrom, longestFrom]
    split
    · rfl
    · next next =>
      refine ih _ _ ?_
      split at h
      · next dead => exact absurd dead next
      · exact h

/-- Only the beginning of a text counts for a pattern that dies in it. -/
theorem longest_append (h : p.dies u = true) (v : List Char) : p.longest (u ++ v) = p.longest u :=
  longestFrom_append 0 none h v

/-- A repetition of characters ends before the first that is not of the class. -/
theorem longestFrom_star (read : Nat) (best : Option Nat) (all : ∀ d ∈ u, isIn d = true)
    (stop : isIn c = false) (v : List Char) :
    longestFrom read best (star (char isIn)) (u ++ c :: v) = some (read + u.length) := by
  induction u generalizing read best with
  | nil => simp [longestFrom, after, takesBlank, followedBy, stop]
  | cons d ds ih =>
    have first : (star (char isIn)).after d = star (char isIn) := by
      simp [after, followedBy, all d List.mem_cons_self]
    have later : ∀ e ∈ ds, isIn e = true := fun e inside => all e (List.mem_cons_of_mem _ inside)
    rw [List.cons_append, longestFrom, first]
    dsimp only
    rw [ih _ _ later, List.length_cons]
    congr 1
    omega

theorem longestFrom_bounds {read n : Nat} {best : Option Nat}
    (found : longestFrom read best p u = some n) :
    best = some n ∨ (if p.takesBlank then read else read + 1) ≤ n ∧ n ≤ read + u.length := by
  induction u generalizing read best p with
  | nil =>
    rw [longestFrom] at found
    split at found
    · next blank =>
      cases found
      simp [blank]
    · exact .inl found
  | cons c cs ih =>
    have here : ∀ {m}, (if p.takesBlank then some read else best) = some m →
        best = some m ∨ (if p.takesBlank then read else read + 1) ≤ m ∧ m ≤ read + (c :: cs).length := by
      intro m same
      split at same
      · next blank =>
        cases same
        simp [blank]
      · exact .inl same
    rw [longestFrom] at found
    split at found
    · exact here found
    · rcases ih found with earlier | ⟨low, high⟩
      · exact here earlier
      · refine .inr ⟨?_, by rw [List.length_cons]; omega⟩
        split at low <;> split <;> omega

/-- A match is no longer than the text, and no shorter than the pattern allows. -/
theorem longest_bounds {n : Nat} (found : p.longest u = some n) :
    n ≤ u.length ∧ (p.takesBlank = false → 1 ≤ n) := by
  rcases longestFrom_bounds found with no | ⟨low, high⟩
  · cases no
  · refine ⟨by omega, fun filled => ?_⟩
    rw [filled] at low
    simpa using low

/-! ## The last character -/

/-- A text of the pattern may end in the character. -/
def mayEnd (c : Char) : Pattern → Bool
  | never => false
  | blank => false
  | char isIn => isIn c
  | seq p q => q.mayEnd c || (q.takesBlank && p.mayEnd c)
  | alt p q => p.mayEnd c || q.mayEnd c
  | star p => p.mayEnd c

variable {q : Pattern} {d : Char}

theorem takesBlank_orElse : (p.orElse q).takesBlank = (p.takesBlank || q.takesBlank) := by
  unfold orElse
  split <;> simp [takesBlank]

theorem takesBlank_followedBy : (p.followedBy q).takesBlank = (p.takesBlank && q.takesBlank) := by
  unfold followedBy
  split <;> simp [takesBlank]

theorem mayEnd_orElse : (p.orElse q).mayEnd c = (p.mayEnd c || q.mayEnd c) := by
  unfold orElse
  split <;> simp [mayEnd]

theorem mayEnd_followedBy (ends : (p.followedBy q).mayEnd c = true) :
    q.mayEnd c = true ∨ q.takesBlank = true ∧ p.mayEnd c = true := by
  unfold followedBy at ends
  split at ends
  · cases ends
  · exact .inl ends
  · simpa [mayEnd] using ends

/-- What may follow a character ends as the pattern does. -/
theorem mayEnd_of_after (ends : (p.after d).mayEnd c = true) : p.mayEnd c = true := by
  induction p with
  | never | blank => cases ends
  | char isIn =>
    rw [after] at ends
    split at ends <;> cases ends
  | seq p q ihP ihQ =>
    have first : ((p.after d).followedBy q).mayEnd c = true → (seq p q).mayEnd c = true := by
      intro ends
      rcases mayEnd_followedBy ends with second | ⟨blank, first⟩
      · simp [mayEnd, second]
      · simp [mayEnd, blank, ihP first]
    rw [after] at ends
    split at ends
    · rw [mayEnd_orElse, Bool.or_eq_true] at ends
      rcases ends with ends | ends
      · exact first ends
      · simp [mayEnd, ihQ ends]
    · exact first ends
  | alt p q ihP ihQ =>
    rw [after, mayEnd_orElse, Bool.or_eq_true] at ends
    rw [mayEnd, Bool.or_eq_true]
    exact ends.imp ihP ihQ
  | star p ih =>
    rw [after] at ends
    rcases mayEnd_followedBy ends with whole | ⟨-, first⟩
    · exact whole
    · exact ih first

/-- A text of the pattern ends in a character that makes up one of its texts, as the last. -/
theorem mayEnd_of_takesBlank (blank : (p.after c).takesBlank = true) : p.mayEnd c = true := by
  induction p with
  | never | blank => cases blank
  | char isIn =>
    rw [after] at blank
    split at blank
    · next inside => exact inside
    · cases blank
  | seq p q ihP ihQ =>
    have first : ((p.after c).followedBy q).takesBlank = true → (seq p q).mayEnd c = true := by
      intro blank
      rw [takesBlank_followedBy, Bool.and_eq_true] at blank
      simp [mayEnd, blank.2, ihP blank.1]
    rw [after] at blank
    split at blank
    · rw [takesBlank_orElse, Bool.or_eq_true] at blank
      rcases blank with blank | blank
      · exact first blank
      · simp [mayEnd, ihQ blank]
    · exact first blank
  | alt p q ihP ihQ =>
    rw [after, takesBlank_orElse, Bool.or_eq_true] at blank
    rw [mayEnd, Bool.or_eq_true]
    exact blank.imp ihP ihQ
  | star p ih =>
    rw [after, takesBlank_followedBy, Bool.and_eq_true] at blank
    exact ih blank.1

theorem mayEnd_after (ends : p.mayEnd c = false) (d : Char) : (p.after d).mayEnd c = false :=
  Bool.eq_false_iff.2 fun may => by simp [mayEnd_of_after may] at ends

theorem takesBlank_after (ends : p.mayEnd c = false) : (p.after c).takesBlank = false :=
  Bool.eq_false_iff.2 fun blank => by simp [mayEnd_of_takesBlank blank] at ends

theorem longestFrom_never (read : Nat) (best : Option Nat) (u : List Char) :
    longestFrom read best never u = best := by
  cases u <;> simp [longestFrom, takesBlank, after]

/-- A pattern goes on after a character, whether or not something of it is left. -/
theorem longestFrom_cons (read : Nat) (best : Option Nat) (p : Pattern) (d : Char) (u : List Char) :
    longestFrom read best p (d :: u) =
      longestFrom (read + 1) (if p.takesBlank then some read else best) (p.after d) u := by
  rw [longestFrom]
  split
  · next dead => rw [dead, longestFrom_never]
  · rfl

/-- A character more changes nothing where no text of the pattern ends in it. -/
theorem longestFrom_concat (read : Nat) (best : Option Nat) (ends : p.mayEnd c = false) :
    longestFrom read best p (u ++ [c]) = longestFrom read best p u := by
  induction u generalizing read best p with
  | nil => simp [longestFrom_cons, longestFrom, takesBlank_after ends]
  | cons d ds ih =>
    rw [List.cons_append, longestFrom_cons, longestFrom_cons]
    exact ih _ _ (mayEnd_after ends d)

end DefTally.Text.Pattern
