import DefTally.Proofs.Json.Escape
import DefTally.Proofs.Text.Sound
import Mathlib.Data.List.Induction
import Mathlib.Logic.Relation

/-!
# Fragments lose and repeat nothing

A string is written in fragments, and a fragment in the slices that its loop cuts out between two escapes.
Wherever the loop stands, the text before the start of the pending slice is written and the slice up to
the index passes through (`Reaches.standing`), so all slices are there and together they are the fragment.
What comes out is what the table of escapes has for each character (`written_iff`), one character after
the other (`textPieces_written`).
-/

namespace DefTally.Text.Utf8

theorem length_encode (text : List Char) : (encode text).length = utf8Length text := by
  induction text with
  | nil => rfl
  | cons c rest ih =>
    rw [encode, List.flatMap_cons, List.length_append, String.length_utf8EncodeChar, utf8Length, ← ih]
    rfl

theorem length_encode_snoc (text : List Char) (c : Char) :
    (encode (text ++ [c])).length = (encode text).length + c.utf8Size := by
  simp only [length_encode, utf8Length_append, utf8Length, Nat.add_zero]

end DefTally.Text.Utf8

namespace DefTally.Json

open DefTally.Text

/-! ## The table of escapes -/

/-- The characters with a short escape, and its letter. -/
def shortEscapes : List (Char × Char) :=
  [('"', '"'), ('\\', '\\'), ('\x08', 'b'), ('\x0c', 'f'), ('\n', 'n'), ('\r', 'r'), ('\t', 't')]

/-- The digits of unit escapes, in the order of their values. -/
def hexDigits : List Char := "0123456789abcdef".toList

/-- The escape of a UTF-16 unit has four of these digits, which make the unit. -/
inductive UnitEscape : Nat → List Char → Prop where
  | digits {i j k l : Nat} {a b c d : Char} (first : hexDigits[i]? = some a)
      (second : hexDigits[j]? = some b) (third : hexDigits[k]? = some c) (fourth : hexDigits[l]? = some d) :
      UnitEscape (((i * 16 + j) * 16 + k) * 16 + l) ['\\', 'u', a, b, c, d]

/-- How a character is written in a string: as it is, with a short escape, with the escape of its only
UTF-16 unit, or with those of its surrogates, the high one first. -/
inductive Written : Char → List Char → Prop where
  | plain {c : Char} (low : 0x20 ≤ c.toNat) (high : c.toNat ≤ 0x7e) (noQuote : c ≠ '"')
      (noBackslash : c ≠ '\\') : Written c [c]
  | short {c letter : Char} (listed : (c, letter) ∈ shortEscapes) : Written c ['\\', letter]
  | unit {c : Char} {w : List Char} (noShort : c ∉ shortEscapes.map Prod.fst)
      (other : c.toNat < 0x20 ∨ 0x7f ≤ c.toNat) (basic : c.toNat < 0x10000)
      (escape : UnitEscape c.toNat w) : Written c w
  | pair {c : Char} {high low : Nat} {w w' : List Char} (isHigh : 0xd800 ≤ high ∧ high < 0xdc00)
      (isLow : 0xdc00 ≤ low ∧ low < 0xe000)
      (joined : c.toNat = 0x10000 + (high - 0xd800) * 0x400 + (low - 0xdc00))
      (first : UnitEscape high w) (second : UnitEscape low w') : Written c (w ++ w')

theorem shortEscape?_eq_some_iff {c letter : Char} :
    shortEscape? c = some letter ↔ (c, letter) ∈ shortEscapes := by
  unfold shortEscape? shortEscapes
  constructor
  · intro short
    repeat' split at short
    all_goals cases short <;> subst_vars <;> decide
  · intro listed
    simp only [List.mem_cons, Prod.mk.injEq, List.not_mem_nil, or_false] at listed
    rcases listed with ⟨rfl, rfl⟩ | ⟨rfl, rfl⟩ | ⟨rfl, rfl⟩ | ⟨rfl, rfl⟩ | ⟨rfl, rfl⟩ | ⟨rfl, rfl⟩ |
      ⟨rfl, rfl⟩ <;> rfl

theorem hexDigits_eq_some_iff {n : Nat} {d : Char} : hexDigits[n]? = some d ↔ n < 16 ∧ d = hexDigit n := by
  have listed : ∀ k < 16, hexDigits[k]? = some (hexDigit k) := by decide
  constructor
  · intro found
    have small : n < 16 := (List.getElem?_eq_some_iff.1 found).1
    exact ⟨small, Option.some.inj (found.symm.trans (listed n small))⟩
  · rintro ⟨small, rfl⟩
    exact listed n small

/-- A unit has one escape. -/
theorem unitEscape_iff {u : Nat} {w : List Char} : UnitEscape u w ↔ u < 0x10000 ∧ w = unitEscape u := by
  have digit : ∀ n m : Nat, n % 16 = m % 16 → hexDigit n = hexDigit m := fun n m same =>
    congrArg Nat.digitChar same
  constructor
  · intro escape
    cases escape with
    | @digits i j k l _ _ _ _ first second third fourth =>
      obtain ⟨fi, rfl⟩ := hexDigits_eq_some_iff.1 first
      obtain ⟨fj, rfl⟩ := hexDigits_eq_some_iff.1 second
      obtain ⟨fk, rfl⟩ := hexDigits_eq_some_iff.1 third
      obtain ⟨fl, rfl⟩ := hexDigits_eq_some_iff.1 fourth
      generalize value : ((i * 16 + j) * 16 + k) * 16 + l = u
      refine ⟨by omega, ?_⟩
      rw [unitEscape, digit i (u / 4096) (by omega), digit j (u / 256) (by omega),
        digit k (u / 16) (by omega), digit l u (by omega)]
  · rintro ⟨fits, rfl⟩
    have value : ((u / 4096 * 16 + u / 256 % 16) * 16 + u / 16 % 16) * 16 + u % 16 = u := by omega
    have escape := UnitEscape.digits (i := u / 4096) (j := u / 256 % 16) (k := u / 16 % 16) (l := u % 16)
      (hexDigits_eq_some_iff.2 ⟨by omega, rfl⟩) (hexDigits_eq_some_iff.2 ⟨by omega, rfl⟩)
      (hexDigits_eq_some_iff.2 ⟨by omega, rfl⟩) (hexDigits_eq_some_iff.2 ⟨by omega, rfl⟩)
    rw [value, digit (u / 256 % 16) (u / 256) (by omega), digit (u / 16 % 16) (u / 16) (by omega),
      digit (u % 16) u (by omega)] at escape
    exact escape

theorem shortEscape?_eq_none_iff {c : Char} :
    shortEscape? c = none ↔ c ∉ shortEscapes.map Prod.fst := by
  simp [Option.eq_none_iff_forall_ne_some, shortEscape?_eq_some_iff]

theorem escape_singleton (c : Char) : escape [c] = if isPlain c then [c] else escapeOf c :=
  List.flatMap_singleton _ c

theorem isPlain_eq_true_iff {c : Char} :
    isPlain c = true ↔ 0x20 ≤ c.toNat ∧ c.toNat ≤ 0x7e ∧ c ≠ '"' ∧ c ≠ '\\' := by
  simp [isPlain, Nat.lt_succ_iff, and_assoc]

/-- A character that is not plain and has no short escape is written as its units. -/
theorem escape_of_units {c : Char} (notPlain : isPlain c = false) (noShort : shortEscape? c = none) :
    escape [c] = (units c).flatMap unitEscape := by
  rw [escape_singleton, notPlain, escapeOf, noShort]
  rfl

/-- Characters with a short escape are quotes, backslashes and controls. -/
theorem of_mem_shortEscapes : ∀ e ∈ shortEscapes, isPlain e.1 = false ∧ e.1.toNat < 0x80 := by
  decide

theorem Written.eq_escape {c : Char} {w : List Char} (written : Written c w) : w = escape [c] := by
  cases written with
  | plain low high noQuote noBackslash =>
    rw [escape_singleton, isPlain_eq_true_iff.2 ⟨low, high, noQuote, noBackslash⟩, if_pos rfl]
  | short listed =>
    have notPlain := (of_mem_shortEscapes _ listed).1
    simp [escape_singleton, notPlain, escapeOf, shortEscape?_eq_some_iff.2 listed]
  | unit noShort other basic escape =>
    obtain ⟨-, rfl⟩ := unitEscape_iff.1 escape
    have notPlain : isPlain c = false := by
      rw [← Bool.not_eq_true, isPlain_eq_true_iff]
      omega
    rw [escape_of_units notPlain (shortEscape?_eq_none_iff.2 noShort), units, if_pos basic,
      List.flatMap_singleton]
  | @pair high low w w' isHigh isLow joined first second =>
    obtain ⟨-, rfl⟩ := unitEscape_iff.1 first
    obtain ⟨-, rfl⟩ := unitEscape_iff.1 second
    have notPlain : isPlain c = false := by
      rw [← Bool.not_eq_true, isPlain_eq_true_iff]
      omega
    have noShort : c ∉ shortEscapes.map Prod.fst := fun listed => by
      obtain ⟨e, inside, rfl⟩ := List.mem_map.1 listed
      have := (of_mem_shortEscapes e inside).2
      omega
    have highUnit : 0xd800 + (c.toNat - 0x10000) / 0x400 = high := by omega
    have lowUnit : 0xdc00 + (c.toNat - 0x10000) % 0x400 = low := by omega
    have pair : units c = [high, low] := by
      rw [units, if_neg (by omega), highUnit, lowUnit]
    rw [escape_of_units notPlain (shortEscape?_eq_none_iff.2 noShort), pair]
    simp

/-- A character that is neither plain nor in the table of short escapes is a control or not ASCII. -/
theorem not_printable_of_noShort {c : Char} (notPlain : isPlain c = false)
    (noShort : c ∉ shortEscapes.map Prod.fst) : c.toNat < 0x20 ∨ 0x7f ≤ c.toNat := by
  have noQuote : c ≠ '"' := by
    rintro rfl
    exact noShort (by decide)
  have noBackslash : c ≠ '\\' := by
    rintro rfl
    exact noShort (by decide)
  rw [← Bool.not_eq_true, isPlain_eq_true_iff] at notPlain
  by_contra inside
  exact notPlain ⟨by omega, by omega, noQuote, noBackslash⟩

theorem written_escape (c : Char) : Written c (escape [c]) := by
  cases plain : isPlain c with
  | true =>
    obtain ⟨low, high, noQuote, noBackslash⟩ := isPlain_eq_true_iff.1 plain
    rw [escape_singleton, if_pos plain]
    exact .plain low high noQuote noBackslash
  | false =>
    cases short : shortEscape? c with
    | some letter =>
      simp only [escape_singleton, plain, escapeOf, short]
      exact .short (shortEscape?_eq_some_iff.1 short)
    | none =>
      have noShort := shortEscape?_eq_none_iff.1 short
      have valid : c.toNat < 0xd800 ∨ 0xdfff < c.toNat ∧ c.toNat < 0x110000 := c.valid
      rw [escape_of_units plain short, units]
      split
      · next basic =>
        rw [List.flatMap_singleton]
        exact .unit noShort (not_printable_of_noShort plain noShort) basic (unitEscape_iff.2 ⟨basic, rfl⟩)
      · next beyond =>
        rw [List.flatMap_cons, List.flatMap_singleton]
        exact .pair (by omega) (by omega) (by omega) (unitEscape_iff.2 ⟨by omega, rfl⟩)
          (unitEscape_iff.2 ⟨by omega, rfl⟩)

/-- The table has one way to write each character. -/
theorem written_iff {c : Char} {w : List Char} : Written c w ↔ w = escape [c] :=
  ⟨Written.eq_escape, fun same => same ▸ written_escape c⟩

/-- A text is written as the table has its characters, one after the other. -/
theorem escape_eq_flatten {text : List Char} {escapes : List (List Char)}
    (table : List.Forall₂ Written text escapes) : escape text = escapes.flatten := by
  induction table with
  | nil => rfl
  | @cons c w rest later written _ ih =>
    rw [escape_cons, ← escape_singleton, ← written.eq_escape, ih]
    rfl

/-! ## Cuts -/

/-- A text is cut at the characters that end fragments, at all of them and nowhere else. -/
structure IsCut (text first : List Char) (later : List (Char × List Char)) : Prop where
  whole : text = first ++ later.flatMap fun (c, fragment) => c :: fragment
  ends : ∀ e ∈ later, endsFragment e.1 = true
  firstInside : ∀ c ∈ first, endsFragment c = false
  laterInside : ∀ e ∈ later, ∀ c ∈ e.2, endsFragment c = false

theorem fragments_append {fragment : List Char} (inside : ∀ c ∈ fragment, endsFragment c = false)
    (rest : List Char) :
    fragments (fragment ++ rest) = (fragment ++ (fragments rest).1, (fragments rest).2) := by
  induction fragment with
  | nil => rfl
  | cons c fragment ih =>
    obtain ⟨here, further⟩ := List.forall_mem_cons.1 inside
    simp [fragments, ih further, here]

theorem isCut_fragments (text : List Char) : IsCut text (fragments text).1 (fragments text).2 := by
  induction text with
  | nil => exact ⟨rfl, by simp [fragments], by simp [fragments], by simp [fragments]⟩
  | cons c rest ih =>
    rcases cut : fragments rest with ⟨first, later⟩
    rw [cut] at ih
    simp only [fragments, cut]
    split
    · next ends =>
      exact ⟨by rw [ih.whole]; rfl, List.forall_mem_cons.2 ⟨ends, ih.ends⟩, List.forall_mem_nil _,
        List.forall_mem_cons.2 ⟨ih.firstInside, ih.laterInside⟩⟩
    · next inside =>
      exact ⟨by rw [ih.whole]; rfl, ih.ends,
        List.forall_mem_cons.2 ⟨Bool.not_eq_true _ ▸ inside, ih.firstInside⟩, ih.laterInside⟩

theorem IsCut.fragments_eq {text first : List Char} {later : List (Char × List Char)}
    (cut : IsCut text first later) : fragments text = (first, later) := by
  obtain ⟨rfl, ends, firstInside, laterInside⟩ := cut
  rw [fragments_append firstInside]
  have rest : fragments (later.flatMap fun (c, fragment) => c :: fragment) = ([], later) := by
    induction later with
    | nil => rfl
    | cons e later ih =>
      obtain ⟨endsHere, endsLater⟩ := List.forall_mem_cons.1 ends
      obtain ⟨here, further⟩ := List.forall_mem_cons.1 laterInside
      rw [List.flatMap_cons, List.cons_append, fragments, fragments_append here, ih endsLater further]
      simp [endsHere]
  rw [rest, List.append_nil]

/-- A text has one cut. -/
theorem isCut_iff {text first : List Char} {later : List (Char × List Char)} :
    IsCut text first later ↔ fragments text = (first, later) :=
  ⟨IsCut.fragments_eq, fun same => by simpa [same] using isCut_fragments text⟩

/-- A character at which a text is cut has an escape. -/
theorem escape_of_endsFragment {c : Char} (ends : endsFragment c = true) : escape [c] = escapeOf c := by
  have notPlain : isPlain c = false := by
    simp only [endsFragment, Bool.or_eq_true, decide_eq_true_eq] at ends
    rw [← Bool.not_eq_true, isPlain_eq_true_iff]
    rintro ⟨low, -, noQuote, noBackslash⟩
    rcases ends with (rfl | rfl) | control
    · exact noQuote rfl
    · exact noBackslash rfl
    · omega
  rw [escape_singleton, notPlain]
  rfl

/-! ## The loop over a fragment -/

/-- Where the loop over a fragment stands: the start of the pending slice and the index, in bytes, the
text from there on, and the pieces that are written. -/
structure Loop where
  start : Nat
  index : Nat
  rest : List Char
  written : List (List Char)

/-- One round of the loop: a character passes through and stays pending, or the pending slice and the
escape of the character are written. -/
inductive Round (fragment : List Char) : Loop → Loop → Prop where
  | passes {start index : Nat} {c : Char} {rest : List Char} {written : List (List Char)}
      (through : passesThrough c = true) :
      Round fragment ⟨start, index, c :: rest, written⟩ ⟨start, index + c.utf8Size, rest, written⟩
  | escapes {start index : Nat} {c : Char} {rest : List Char} {written : List (List Char)}
      (stopped : passesThrough c = false) :
      Round fragment ⟨start, index, c :: rest, written⟩
        ⟨index + c.utf8Size, index + c.utf8Size, rest,
          written ++ (slice? fragment start index).getD [] :: (units c).map unitEscape⟩

/-- The loop comes to stand somewhere. -/
def Reaches (fragment : List Char) : Loop → Prop :=
  Relation.ReflTransGen (Round fragment) ⟨0, 0, fragment, []⟩

/-- What is so wherever the loop stands. The text before the pending slice is written, the slice and
what passed through are the same, and what is still to come makes up the pieces of the fragment. -/
structure Standing (fragment : List Char) (s : Loop) (before pending : List Char) : Prop where
  whole : fragment = before ++ (pending ++ s.rest)
  start : s.start = (Utf8.encode before).length
  index : s.index = (Utf8.encode (before ++ pending)).length
  through : ∀ c ∈ pending, passesThrough c = true
  written : s.written.flatten = escapeFragment before
  pieces : s.written ++ fragmentFrom fragment s.start s.index s.rest = fragmentPieces fragment

namespace Standing

variable {fragment before pending : List Char} {s : Loop}

theorem start_le_index (standing : Standing fragment s before pending) : s.start ≤ s.index := by
  rw [standing.start, standing.index, Utf8.length_encode, Utf8.length_encode, utf8Length_append]
  exact Nat.le_add_right _ _

/-- The pending slice is there. -/
theorem slice (standing : Standing fragment s before pending) :
    slice? fragment s.start s.index = some pending := by
  rw [standing.start, standing.index, standing.whole, Utf8.length_encode, Utf8.length_encode]
  exact slice?_append before pending s.rest

/-- The slice to the end is there. -/
theorem drop (standing : Standing fragment s before pending) :
    dropBytes? s.start fragment = some (pending ++ s.rest) := by
  rw [standing.start, standing.whole, Utf8.length_encode]
  exact dropBytes?_utf8Length before _

end Standing

theorem standing_begin (fragment : List Char) : Standing fragment ⟨0, 0, fragment, []⟩ [] [] where
  whole := rfl
  start := rfl
  index := rfl
  through := List.forall_mem_nil _
  written := rfl
  pieces := rfl

theorem escapeFragment_append (a b : List Char) :
    escapeFragment (a ++ b) = escapeFragment a ++ escapeFragment b :=
  List.flatMap_append

theorem escapeFragment_of_through {pending : List Char}
    (through : ∀ c ∈ pending, passesThrough c = true) : escapeFragment pending = pending := by
  induction pending with
  | nil => rfl
  | cons c pending ih =>
    obtain ⟨here, further⟩ := List.forall_mem_cons.1 through
    rw [escapeFragment_cons, if_pos here, ih further]
    rfl

/-- A round keeps what is so. -/
theorem Round.standing {fragment before pending : List Char} {s t : Loop} (round : Round fragment s t)
    (standing : Standing fragment s before pending) :
    ∃ before' pending', Standing fragment t before' pending' := by
  have slice := standing.slice
  have whole := standing.whole
  have place := standing.index
  have pieces := standing.pieces
  cases round with
  | @passes start index c rest written through =>
    refine ⟨before, pending ++ [c], ⟨?_, standing.start, ?_, ?_, standing.written, ?_⟩⟩
    · simpa using whole
    · rw [← List.append_assoc, Utf8.length_encode_snoc, ← place]
    · exact List.forall_mem_append.2 ⟨standing.through, List.forall_mem_singleton.2 through⟩
    · simpa [fragmentFrom, through] using pieces
  | @escapes start index c rest written stopped =>
    have next : index + c.utf8Size = (Utf8.encode (before ++ pending ++ [c])).length := by
      rw [Utf8.length_encode_snoc, ← place]
    refine ⟨before ++ pending ++ [c], [], ⟨?_, next, ?_, List.forall_mem_nil _, ?_, ?_⟩⟩
    · simpa using whole
    · rw [List.append_nil]
      exact next
    · simp only [slice, Option.getD_some, List.flatten_append, standing.written, escapeFragment_append,
        List.flatten_cons, escapeFragment_of_through standing.through]
      simp [escapeFragment, stopped, List.flatMap]
    · simpa [fragmentFrom, stopped] using pieces

theorem Reaches.standing {fragment : List Char} {s : Loop} (reaches : Reaches fragment s) :
    ∃ before pending, Standing fragment s before pending := by
  induction reaches with
  | refl => exact ⟨[], [], standing_begin fragment⟩
  | tail _ round ih =>
    obtain ⟨before, pending, standing⟩ := ih
    exact round.standing standing

/-- The loop comes to every character of the fragment, and to its end. -/
theorem exists_reaches (before rest : List Char) :
    ∃ start written, Reaches (before ++ rest) ⟨start, (Utf8.encode before).length, rest, written⟩ := by
  induction before using List.reverseRecOn generalizing rest with
  | nil => exact ⟨0, [], .refl⟩
  | append_singleton before c ih =>
    obtain ⟨start, written, reaches⟩ := ih (c :: rest)
    rw [List.append_assoc, List.singleton_append, Utf8.length_encode_snoc]
    cases through : passesThrough c with
    | true => exact ⟨_, _, reaches.tail (.passes through)⟩
    | false => exact ⟨_, _, reaches.tail (.escapes through)⟩

/-! ## The pieces of a text -/

theorem forall₂_written (text : List Char) : List.Forall₂ Written text (text.map fun c => escape [c]) :=
  List.forall₂_map_right_iff.2 (List.forall₂_same.2 fun c _ => written_escape c)

/-- Fragments lose and repeat nothing. The table has one way to write each character of a text, and the
bytes of the pieces in which a text is written are those of its characters, each as the table has it, one
after the other. The pieces are those of the fragments with the escapes of the characters between them,
for the only cut of the text at quotes, backslashes and controls. Over a fragment, whichever it is, the
loop comes to every character and to the end, and wherever it stands both slices are there: from the
start, which is between characters and not after the index, to the index, and from the start to the end
of the fragment. What is written then is the text before the start, and with what is still to come these
are the pieces of the fragment. -/
theorem textPieces_written (text : List Char) :
    (∃! escapes, List.Forall₂ Written text escapes) ∧
    (∀ escapes, List.Forall₂ Written text escapes →
      ((textPieces text).map Utf8.encode).flatten = (escapes.map Utf8.encode).flatten) ∧
    (∃! cut : List Char × List (Char × List Char), IsCut text cut.1 cut.2) ∧
    (∀ first later, IsCut text first later →
      textPieces text = fragmentPieces first ++
        later.flatMap (fun (c, fragment) => escapeOf c :: fragmentPieces fragment) ∧
      ∀ e ∈ later, Written e.1 (escapeOf e.1)) ∧
    ∀ fragment,
      (∀ s, Reaches fragment s → s.start ≤ s.index ∧ ∃ before pending,
        Standing fragment s before pending ∧ slice? fragment s.start s.index = some pending ∧
        dropBytes? s.start fragment = some (pending ++ s.rest)) ∧
      ∀ before rest, fragment = before ++ rest →
        ∃ start written, Reaches fragment ⟨start, (Utf8.encode before).length, rest, written⟩ := by
  refine ⟨⟨_, forall₂_written text, fun other table => ?_⟩, fun escapes table => ?_, ?_,
    fun first later cut => ⟨?_, fun e inside => ?_⟩, fun fragment => ⟨fun s reaches => ?_, ?_⟩⟩
  · induction table with
    | nil => rfl
    | cons written _ ih => rw [List.map_cons, ← ih, written.eq_escape]
  · rw [Utf8.flatten_map_encode, Utf8.flatten_map_encode, flatten_textPieces, escape_eq_flatten table]
  · exact ⟨_, isCut_fragments text, fun other cut => (isCut_iff.1 cut).symm⟩
  · rw [textPieces, cut.fragments_eq]
  · exact written_iff.2 (escape_of_endsFragment (cut.ends e inside)).symm
  · obtain ⟨before, pending, standing⟩ := reaches.standing
    exact ⟨standing.start_le_index, before, pending, standing, standing.slice, standing.drop⟩
  · rintro before rest rfl
    exact exists_reaches before rest

/-- Where escaped characters stand side by side, first, last and between characters of other lengths. -/
theorem textPieces_written_adjacent :
    let text := "\"\né\x7f😀a\x01".toList
    let escapes :=
      ["\\\"", "\\n", "\\u00e9", "\\u007f", "\\ud83d\\ude00", "a", "\\u0001"].map String.toList
    List.Forall₂ Written text escapes ∧
    ((textPieces text).map Utf8.encode).flatten = (escapes.map Utf8.encode).flatten ∧
    IsCut text [] [('"', []), ('\n', "é\x7f😀a".toList), ('\x01', [])] ∧ Written '\n' (escapeOf '\n') ∧
    ∃ start written, Reaches "é\x7f😀a".toList ⟨start, 7, ['a'], written⟩ ∧ start ≤ 7 := by
  intro text escapes
  obtain ⟨-, bytes, -, cuts, loop⟩ := textPieces_written text
  have table : List.Forall₂ Written text escapes := by
    have same : escapes = text.map fun c => escape [c] := by decide
    exact same ▸ forall₂_written text
  have cut : IsCut text [] [('"', []), ('\n', "é\x7f😀a".toList), ('\x01', [])] :=
    isCut_iff.2 (by decide)
  obtain ⟨stands, comes⟩ := loop "é\x7f😀a".toList
  obtain ⟨start, written, reaches⟩ := comes "é\x7f😀".toList ['a'] (by decide)
  have index : (Utf8.encode "é\x7f😀".toList).length = 7 := by decide
  rw [index] at reaches
  have control := (cuts _ _ cut).2 ('\n', "é\x7f😀a".toList) (by decide)
  exact ⟨table, bytes escapes table, cut, control, start, written, reaches, (stands _ reaches).1⟩

end DefTally.Json
