import DefTally.Json.Line
import DefTally.Proofs.Json.Escape
import DefTally.Proofs.Text.Sound

/-!
# Printable values

A value is written in printable ASCII, whatever its texts are: what a string holds comes through only if
it is printable, and every escape is (`printable_escape`). By induction on the value nothing else stands
on its line (`printable_pieces`).
-/

namespace DefTally

open DefTally.Json DefTally.Text

/-- A text is in printable ASCII. -/
def Printable (text : List Char) : Prop := ∀ c ∈ text, 0x20 ≤ c.toNat ∧ c.toNat ≤ 0x7e

instance (text : List Char) : Decidable (Printable text) :=
  List.decidableBAll (fun c : Char => 0x20 ≤ c.toNat ∧ c.toNat ≤ 0x7e) text

section Printable

variable {a b : List Char} {c : Char}

@[simp] theorem printable_nil : Printable [] := List.forall_mem_nil _

@[simp] theorem printable_cons :
    Printable (c :: a) ↔ (0x20 ≤ c.toNat ∧ c.toNat ≤ 0x7e) ∧ Printable a :=
  List.forall_mem_cons

@[simp] theorem printable_append : Printable (a ++ b) ↔ Printable a ∧ Printable b :=
  List.forall_mem_append

theorem printable_flatMap {α : Type} {items : List α} {text : α → List Char}
    (each : ∀ x, Printable (text x)) : Printable (items.flatMap text) := by
  intro c inside
  obtain ⟨x, -, own⟩ := List.mem_flatMap.1 inside
  exact each x c own

/-- The bytes of a printable text are printable. -/
theorem Printable.encode (printable : Printable a) : ∀ b ∈ Utf8.encode a, 0x20 ≤ b ∧ b ≤ 0x7e := by
  intro b inside
  obtain ⟨c, listed, own⟩ := List.mem_flatMap.1 inside
  obtain ⟨low, high⟩ := printable c listed
  have bytes := Utf8.encodeChar_ofNat (v := c.toNat) c.valid
  rw [Char.ofNat_toNat, if_pos (by omega)] at bytes
  rw [bytes, List.mem_singleton] at own
  rw [own, UInt8.le_iff_toNat_le, UInt8.le_iff_toNat_le, UInt8.toNat_ofNat', Nat.mod_eq_of_lt (by omega)]
  exact ⟨low, high⟩

end Printable

namespace Json

/-! ## Strings and numbers -/

theorem printable_unitEscape (u : Nat) : Printable (unitEscape u) := by
  have digits : ∀ k < 16, 0x20 ≤ (Nat.digitChar k).toNat ∧ (Nat.digitChar k).toNat ≤ 0x7e := by decide
  have digit (n : Nat) : 0x20 ≤ (hexDigit n).toNat ∧ (hexDigit n).toNat ≤ 0x7e :=
    digits (n % 16) (Nat.mod_lt _ (by decide))
  simp [unitEscape, digit]

theorem printable_escapeOf (c : Char) : Printable (escapeOf c) := by
  unfold escapeOf
  split
  · next letter short =>
    unfold shortEscape? at short
    repeat' split at short
    all_goals cases short <;> decide
  · exact printable_flatMap printable_unitEscape

/-- What stands for itself in a string is printable, and so are all escapes. -/
theorem printable_escape (text : List Char) : Printable (escape text) := by
  refine printable_flatMap fun c => ?_
  split
  · next plain =>
    simp only [isPlain, Bool.and_eq_true, decide_eq_true_eq] at plain
    exact printable_cons.2 ⟨by omega, printable_nil⟩
  · exact printable_escapeOf c

theorem printable_stringPieces (s : String) : Printable (stringPieces s).flatten := by
  simp [stringPieces, flatten_textPieces, printable_escape]

theorem printable_decimal (n : Int) : Printable (decimal n) := by
  have sign : Printable (if n < 0 then ['-'] else []) := by split <;> decide
  refine printable_append.2 ⟨sign, fun d inside => ?_⟩
  have digit := Nat.isDigit_of_mem_toDigits (by decide) (by decide) inside
  simp only [Char.isDigit, Bool.and_eq_true, decide_eq_true_eq, ge_iff_le, UInt32.le_iff_toNat_le]
    at digit
  have low : 0x30 ≤ d.toNat := digit.1
  have high : d.toNat ≤ 0x39 := digit.2
  omega

/-! ## Values -/

mutual

/-- A value is written in printable ASCII. -/
theorem printable_pieces : ∀ v : Value, Printable v.pieces.flatten
  | .null => by rw [Value.pieces]; decide
  | .bool true => by rw [Value.pieces]; decide
  | .bool false => by rw [Value.pieces]; decide
  | .number n => by simp [Value.pieces, printable_decimal n]
  | .string s => by simp [Value.pieces, printable_stringPieces s]
  | .array items => by simp [Value.pieces, printable_itemPieces items]
  | .object fields => by simp [Value.pieces, printable_fieldPieces fields]

theorem printable_itemPieces : ∀ items : List Value, Printable (Value.itemPieces items).flatten
  | [] => by simp [Value.itemPieces]
  | v :: items => by simp [Value.itemPieces, printable_pieces v, printable_laterItemPieces items]

theorem printable_laterItemPieces :
    ∀ items : List Value, Printable (Value.laterItemPieces items).flatten
  | [] => by simp [Value.laterItemPieces]
  | v :: items => by
    simp [Value.laterItemPieces, separator, printable_pieces v, printable_laterItemPieces items]

theorem printable_fieldPieces :
    ∀ fields : List (String × Value), Printable (Value.fieldPieces fields).flatten
  | [] => by simp [Value.fieldPieces]
  | (key, v) :: fields => by
    simp [Value.fieldPieces, keySeparator, printable_stringPieces key, printable_pieces v,
      printable_laterFieldPieces fields]

theorem printable_laterFieldPieces :
    ∀ fields : List (String × Value), Printable (Value.laterFieldPieces fields).flatten
  | [] => by simp [Value.laterFieldPieces]
  | (key, v) :: fields => by
    simp [Value.laterFieldPieces, separator, keySeparator, printable_stringPieces key,
      printable_pieces v, printable_laterFieldPieces fields]

end

/-- The line of a value is printable ASCII. -/
theorem printable_line (v : Value) : Printable v.line.toList := by
  rw [Value.line, String.toList_ofList]
  exact printable_pieces v

end Json

end DefTally
