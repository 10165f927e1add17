import DefTally.Source.Token
import Mathlib.Data.List.Induction

/-!
# Plain definitions in a list of tokens

What a plain top-level definition is, told by tokens alone: a `def` that no block is open
before, and that does not come right after `async`. `plainDefinitions` counts them by their
positions; `definitionsFrom` counts them from left to right, so that the count of a text is the
sum of the counts of its parts (`definitionsFrom_append`).
-/

namespace DefTally.Source

/-- How many more blocks are opened than closed. -/
def depthAfter (tokens : List Token) : Int := tokens.count .indent - tokens.count .dedent

/-- A token that comes after others is the `def` of a plain top-level definition. -/
def isPlainAfter (before : List Token) (token : Token) : Bool :=
  token = .kwDef && depthAfter before = 0 && before.getLast? ≠ some .kwAsync

/-- How many plain top-level definitions there are among the tokens of a text. -/
def plainDefinitions (tokens : List Token) : Nat :=
  (List.range tokens.length).countP fun i => (tokens[i]?).any (isPlainAfter (tokens.take i))

/-- How many plain top-level definitions there are among tokens that come after others. -/
def definitionsFrom (before : List Token) : List Token → Nat
  | [] => 0
  | t :: ts => (if isPlainAfter before t then 1 else 0) + definitionsFrom (before ++ [t]) ts

variable {before a b tokens : List Token} {t : Token}

@[simp] theorem depthAfter_nil : depthAfter [] = 0 := rfl

@[simp] theorem depthAfter_append (a b : List Token) :
    depthAfter (a ++ b) = depthAfter a + depthAfter b := by
  simp only [depthAfter, List.count_append]
  omega

@[simp] theorem depthAfter_indent : depthAfter [.indent] = 1 := rfl

@[simp] theorem depthAfter_dedent : depthAfter [.dedent] = -1 := rfl

theorem depthAfter_single (opens : t ≠ .indent) (closes : t ≠ .dedent) : depthAfter [t] = 0 := by
  simp [depthAfter, opens, closes]

@[simp] theorem definitionsFrom_nil (before : List Token) : definitionsFrom before [] = 0 := rfl

theorem definitionsFrom_single (before : List Token) (t : Token) :
    definitionsFrom before [t] = if isPlainAfter before t then 1 else 0 := rfl

theorem definitionsFrom_append (before a b : List Token) :
    definitionsFrom before (a ++ b) = definitionsFrom before a + definitionsFrom (before ++ a) b := by
  induction a generalizing before with
  | nil => simp
  | cons t a ih =>
    rw [List.cons_append, definitionsFrom, definitionsFrom, ih, List.append_assoc, Nat.add_assoc]
    rfl

theorem plainDefinitions_concat (tokens : List Token) (t : Token) :
    plainDefinitions (tokens ++ [t]) =
      plainDefinitions tokens + if isPlainAfter tokens t then 1 else 0 := by
  have here : ∀ i ∈ List.range tokens.length,
      ((tokens ++ [t])[i]?).any (isPlainAfter ((tokens ++ [t]).take i)) = true ↔
        (tokens[i]?).any (isPlainAfter (tokens.take i)) = true := by
    intro i inRange
    have less := List.mem_range.1 inRange
    rw [List.getElem?_append_left less, List.take_append_of_le_length (Nat.le_of_lt less)]
  rw [plainDefinitions, List.length_append, List.length_singleton, List.range_succ,
    List.countP_append, List.countP_congr here, List.countP_singleton]
  simp [plainDefinitions]

/-- Both ways to count agree. -/
theorem plainDefinitions_eq (tokens : List Token) :
    plainDefinitions tokens = definitionsFrom [] tokens := by
  induction tokens using List.reverseRecOn with
  | nil => rfl
  | append_singleton ts t ih =>
    rw [plainDefinitions_concat, definitionsFrom_append, definitionsFrom_single, ih, List.nil_append]

/-- A token other than `def` defines nothing. -/
theorem isPlainAfter_of_ne (h : t ≠ .kwDef) : isPlainAfter before t = false := by
  simp [isPlainAfter, h]

/-- Only the depth counts of what comes before, and whether it ends in `async`. -/
theorem isPlainAfter_congr {before' : List Token} (depth : depthAfter before = depthAfter before')
    (last : before.getLast? ≠ some .kwAsync ↔ before'.getLast? ≠ some .kwAsync) (t : Token) :
    isPlainAfter before t = isPlainAfter before' t := by
  simp only [isPlainAfter, depth, last]

theorem definitionsFrom_congr {before' : List Token} (depth : depthAfter before = depthAfter before')
    (last : before.getLast? ≠ some .kwAsync ↔ before'.getLast? ≠ some .kwAsync)
    (tokens : List Token) : definitionsFrom before tokens = definitionsFrom before' tokens := by
  induction tokens generalizing before before' with
  | nil => rfl
  | cons t ts ih =>
    have later : definitionsFrom (before ++ [t]) ts = definitionsFrom (before' ++ [t]) ts := by
      apply ih
      · rw [depthAfter_append, depthAfter_append, depth]
      · simp
    rw [definitionsFrom, definitionsFrom, isPlainAfter_congr depth last, later]

/-- Nothing inside a block is a top-level definition. -/
theorem isPlainAfter_of_depth (h : 1 ≤ depthAfter before) : isPlainAfter before t = false := by
  have deep : depthAfter before ≠ 0 := by omega
  simp [isPlainAfter, deep]

end DefTally.Source
