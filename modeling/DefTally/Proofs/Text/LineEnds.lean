import DefTally.Proofs.Text.Cut
import DefTally.Text.LineBreak
import Mathlib.Data.List.Chain

/-!
# Lines and the bytes between their characters

A text is written as lines, each with its own kind of line end. Made alike, the lines all end in
line feeds (`unify_linesText`), if no carriage return comes before a line feed that stands for
another line end: only then can the kinds be told apart (`Separate`). Bytes that decode to nothing
may be scattered among the characters and do not change the text (`decodeKept_scattered`).
-/

namespace DefTally.Text

/-- How a line ends: in a line feed, a carriage return, or both. -/
inductive LineEnd where
  | feed
  | carriage
  | both
  deriving DecidableEq, Repr

/-- The characters of a line end. -/
def LineEnd.text : LineEnd → List Char
  | feed => ['\n']
  | carriage => ['\r']
  | both => ['\r', '\n']

/-- A line without its end. -/
structure Line where
  text : List Char
  noFeed : '\n' ∉ text
  noCarriage : '\r' ∉ text

/-- Lines with their ends, and a last line without an end, if there is one. -/
def linesText (lines : List (Line × LineEnd)) (last : Option Line) : List Char :=
  lines.flatMap (fun l => l.1.text ++ l.2.text) ++ last.elim [] Line.text

/-- Lines that all end in a line feed. -/
def feedText (lines : List Line) : List Char := lines.flatMap fun l => l.text ++ ['\n']

/-- No line that ends in a carriage return comes before an empty line that ends in a line feed: these
two would be one line end. -/
def Separate (lines : List (Line × LineEnd)) : Prop :=
  lines.IsChain fun l m => ¬(l.2 = .carriage ∧ m.1.text = [] ∧ m.2 = .feed)

instance (lines : List (Line × LineEnd)) : Decidable (Separate lines) :=
  inferInstanceAs (Decidable (List.IsChain _ _))

variable {lines : List (Line × LineEnd)} {last : Option Line} {text u : List Char}

/-! ## Line ends made alike -/

theorem unify_cons_of_ne {c : Char} (other : c ≠ '\r') (text : List Char) :
    LineBreak.unify (c :: text) = c :: LineBreak.unify text := by
  rw [LineBreak.unify.eq_4]
  · rintro rest rfl
    exact absurd rfl other
  · exact other

theorem unify_append (plain : '\r' ∉ u) (text : List Char) :
    LineBreak.unify (u ++ text) = u ++ LineBreak.unify text := by
  induction u with
  | nil => rfl
  | cons c rest ih =>
    have other : c ≠ '\r' := fun same => plain (same ▸ List.mem_cons_self)
    rw [List.cons_append, unify_cons_of_ne other, ih fun inside => plain (List.mem_cons_of_mem _ inside),
      List.cons_append]

/-- A carriage return is a line end of its own where no line feed follows. -/
theorem unify_carriage (alone : text.head? ≠ some '\n') :
    LineBreak.unify ('\r' :: text) = '\n' :: LineBreak.unify text := by
  rw [LineBreak.unify.eq_3]
  rintro rest rfl
  exact alone rfl

/-- A text of lines begins with a line feed only if its first line is empty and ends in one. -/
theorem head?_linesText (first : (linesText lines last).head? = some '\n') :
    ∃ l rest, lines = l :: rest ∧ l.1.text = [] ∧ l.2 = .feed := by
  have apart : ∀ (l : Line) (c : Char) (cs : List Char), l.text = c :: cs → c ≠ '\n' := by
    rintro l c cs text rfl
    exact l.noFeed (text ▸ List.mem_cons_self)
  cases lines with
  | nil =>
    cases last with
    | none => cases first
    | some l =>
      simp only [linesText, List.flatMap_nil, List.nil_append, Option.elim_some] at first
      obtain ⟨cs, text⟩ := List.head?_eq_some_iff.1 first
      exact absurd rfl (apart l _ cs text)
  | cons l rest =>
    obtain ⟨line, ending⟩ := l
    refine ⟨(line, ending), rest, rfl, ?_⟩
    cases text : line.text with
    | nil =>
      cases ending with
      | feed => exact ⟨rfl, rfl⟩
      | carriage | both =>
        rw [linesText, List.flatMap_cons, text] at first
        cases first
    | cons c cs =>
      rw [linesText, List.flatMap_cons, text] at first
      cases first
      exact absurd rfl (apart line _ cs text)

/-- Lines whose ends are made alike all end in line feeds. -/
theorem unify_linesText (separate : Separate lines) :
    LineBreak.unify (linesText lines last) = feedText (lines.map Prod.fst) ++ last.elim [] Line.text := by
  induction lines with
  | nil =>
    cases last with
    | none => rfl
    | some l => exact LineBreak.unify_of_cr_not_mem l.noCarriage
  | cons l rest ih =>
    have ih := ih separate.tail
    have split_ : linesText (l :: rest) last = l.1.text ++ (l.2.text ++ linesText rest last) := by
      simp [linesText]
    have ends : LineBreak.unify (l.2.text ++ linesText rest last) =
        '\n' :: LineBreak.unify (linesText rest last) := by
      cases ending : l.2 with
      | feed => exact unify_cons_of_ne (by decide) _
      | both => rfl
      | carriage =>
        apply unify_carriage
        intro first
        obtain ⟨m, later, rfl, empty, feed⟩ := head?_linesText first
        exact (List.isChain_cons_cons.1 separate).1 ⟨ending, empty, feed⟩
    rw [split_, unify_append l.1.noCarriage, ends, ih]
    simp [feedText]

/-! ## Two replacements -/

/-- Writes a line feed for a carriage return that a line feed follows. -/
def joinEnds : List Char → List Char
  | [] => []
  | '\r' :: '\n' :: rest => '\n' :: joinEnds rest
  | c :: rest => c :: joinEnds rest

/-- Making line ends alike is to replace the pairs first and then the carriage returns that are left. -/
theorem unify_eq (text : List Char) :
    LineBreak.unify text = (joinEnds text).map fun c => if c = '\r' then '\n' else c := by
  fun_induction joinEnds text with
  | case1 => rfl
  | case2 rest ih => rw [LineBreak.unify, ih, List.map_cons, if_neg (by decide)]
  | case3 c rest pair ih =>
    rw [List.map_cons]
    by_cases carriage : c = '\r'
    · subst carriage
      rw [if_pos rfl, ← ih]
      apply unify_carriage
      intro first
      obtain ⟨cs, rfl⟩ := List.head?_eq_some_iff.1 first
      exact pair cs rfl rfl
    · rw [if_neg carriage, ← ih, unify_cons_of_ne carriage]

/-! ## Scattered bytes -/

open Utf8

/-- The bytes of a text with other bytes before each character, from the given number on, and at the
end. -/
def scattered (junk : Nat → Bytes) : Nat → List Char → Bytes
  | n, [] => junk n
  | n, c :: cs => junk n ++ (String.utf8EncodeChar c ++ scattered junk (n + 1) cs)

/-- Bytes that decode to nothing can stand between any two characters. -/
theorem decodeKept_scattered {junk : Nat → Bytes} (nothing : ∀ n, decodeKept (junk n) = []) (n : Nat)
    (text : List Char) : decodeKept (scattered junk n text) = text := by
  induction text generalizing n with
  | nil => exact nothing n
  | cons c cs ih =>
    have first : decodeKept (String.utf8EncodeChar c ++ scattered junk (n + 1) cs) =
        c :: decodeKept (scattered junk (n + 1) cs) := by
      rw [decodeKept, Utf8.segment, segmentFrom_encodeChar, List.filterMap_cons]
      rfl
    rw [scattered, decodeKept_append _ (fresh_encodeChar c _), nothing, first, ih, List.nil_append]

end DefTally.Text
