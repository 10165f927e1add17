import DefTally.Proofs.Text.Sound
import Mathlib.Data.List.Lex

/-!
# The order of texts

Texts are ordered by the first character that differs, and so are their bytes. A longer sequence begins
with a greater byte, and two sequences of one length are ordered as their characters are
(`lex_encodeChar`). So the order of UTF-8 bytes is the order of code points (`lex_encode_iff`), although
characters differ in how many bytes they take.
-/

namespace DefTally.Text.Utf8

variable {n m : Nat} {later later' : Bytes}

theorem lex_of_lt (fits : m < 256) (less : n < m) :
    List.Lex (· < ·) (UInt8.ofNat n :: later) (UInt8.ofNat m :: later') := by
  refine .rel (UInt8.lt_iff_toNat_lt.2 ?_)
  rw [UInt8.toNat_ofNat', UInt8.toNat_ofNat', Nat.mod_eq_of_lt fits, Nat.mod_eq_of_lt (by omega)]
  exact less

/-- Where the first bytes can be the same, the later ones are compared. -/
theorem lex_of_le (fits : m < 256) (atMost : n ≤ m) (rest : n = m → List.Lex (· < ·) later later') :
    List.Lex (· < ·) (UInt8.ofNat n :: later) (UInt8.ofNat m :: later') := by
  rcases Nat.lt_or_eq_of_le atMost with less | same
  · exact lex_of_lt fits less
  · exact same ▸ .cons (rest same)

/-- The bytes of a lesser character come before those of a greater one, whatever follows them. -/
theorem lex_encodeChar {c d : Char} (less : c < d) (u v : Bytes) :
    List.Lex (· < ·) (String.utf8EncodeChar c ++ u) (String.utf8EncodeChar d ++ v) := by
  have less : c.toNat < d.toNat := less
  have valid : d.toNat < 0xd800 ∨ 0xdfff < d.toNat ∧ d.toNat < 0x110000 := d.valid
  have bytesC := encodeChar_ofNat (v := c.toNat) c.valid
  have bytesD := encodeChar_ofNat (v := d.toNat) valid
  rw [Char.ofNat_toNat] at bytesC bytesD
  rw [bytesC, bytesD]
  generalize c.toNat = n at less
  generalize d.toNat = m at less valid
  -- By the length of the lesser character, and then by that of the greater one, which is no shorter.
  split
  · split
    · exact lex_of_lt (by omega) less
    split
    · exact lex_of_lt (by omega) (by omega)
    split
    · exact lex_of_lt (by omega) (by omega)
    · exact lex_of_lt (by omega) (by omega)
  split
  · rw [if_neg (by omega)]
    split
    · exact lex_of_le (by omega) (by omega) fun _ => lex_of_lt (by omega) (by omega)
    split
    · exact lex_of_lt (by omega) (by omega)
    · exact lex_of_lt (by omega) (by omega)
  split
  · rw [if_neg (by omega), if_neg (by omega)]
    split
    · exact lex_of_le (by omega) (by omega) fun _ => lex_of_le (by omega) (by omega) fun _ =>
        lex_of_lt (by omega) (by omega)
    · exact lex_of_lt (by omega) (by omega)
  · rw [if_neg (by omega), if_neg (by omega), if_neg (by omega)]
    exact lex_of_le (by omega) (by omega) fun _ => lex_of_le (by omega) (by omega) fun _ =>
      lex_of_le (by omega) (by omega) fun _ => lex_of_lt (by omega) (by omega)

theorem lex_encode {a b : List Char} (order : a < b) : List.Lex (· < ·) (encode a) (encode b) := by
  induction order with
  | @nil c rest =>
    obtain ⟨x, later, bytes⟩ := List.exists_cons_of_ne_nil (String.utf8EncodeChar_ne_nil (c := c))
    rw [encode, encode, List.flatMap_cons, bytes]
    exact .nil
  | rel less => exact lex_encodeChar less _ _
  | cons _ ih => exact .append_left _ ih _

/-- The order of UTF-8 bytes is the order of characters. -/
theorem lex_encode_iff {a b : List Char} : List.Lex (· < ·) (encode a) (encode b) ↔ a < b := by
  refine ⟨fun order => ?_, lex_encode⟩
  rcases Std.lt_trichotomy a b with less | rfl | greater
  · exact less
  · exact absurd order (List.lt_irrefl _)
  · exact absurd (lex_encode greater) (List.lt_asymm order)

/-- The order of code points is the order of characters. -/
theorem lex_codePoints_iff {a b : List Char} :
    List.Lex (· < ·) (a.map Char.toNat) (b.map Char.toNat) ↔ a < b := by
  have keeps : ∀ {a b : List Char}, a < b → a.map Char.toNat < b.map Char.toNat :=
    fun order => List.map_lt (fun _ _ less => less) order
  refine ⟨fun order => ?_, keeps⟩
  rcases Std.lt_trichotomy a b with less | rfl | greater
  · exact less
  · exact absurd order (List.lt_irrefl _)
  · exact absurd (keeps greater) (List.lt_asymm order)

end DefTally.Text.Utf8
