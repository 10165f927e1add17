import DefTally.Proofs.Text.Cut
import Mathlib.Data.List.Forall2

/-!
# Encoding what was decoded

A sequence of bytes that is cut off as a character is the encoding of that character
(`encodeChar_scalarOf`). So bytes that are read as a text are the bytes of that text (`decode?_eq_some_iff`).
-/

namespace DefTally.Text.Utf8

/-! ## The character of a well-formed sequence -/

/-- The bytes of a character by its value. -/
theorem encodeChar_ofNat {v : Nat} (valid : v < 0xd800 ∨ 0xdfff < v ∧ v < 0x110000) :
    String.utf8EncodeChar (Char.ofNat v) =
      if v ≤ 0x7f then [.ofNat v]
      else if v ≤ 0x7ff then [.ofNat (v / 64 % 0x20 + 0xc0), .ofNat (v % 0x40 + 0x80)]
      else if v ≤ 0xffff then
        [.ofNat (v / 4096 % 0x10 + 0xe0), .ofNat (v / 64 % 0x40 + 0x80), .ofNat (v % 0x40 + 0x80)]
      else [.ofNat (v / 262144 % 0x08 + 0xf0), .ofNat (v / 4096 % 0x40 + 0x80),
        .ofNat (v / 64 % 0x40 + 0x80), .ofNat (v % 0x40 + 0x80)] := by
  have value : (Char.ofNat v).val.toNat = v := by
    rw [Char.ofNat, dif_pos valid]
    rfl
  rw [String.utf8EncodeChar]
  simp only [value]

theorem has_iff {r : Range} {b : UInt8} :
    r.has b = true ↔ r.low.toNat ≤ b.toNat ∧ b.toNat ≤ r.high.toNat := by
  rw [Range.has, Bool.and_eq_true, decide_eq_true_eq, decide_eq_true_eq, UInt8.le_iff_toNat_le,
    UInt8.le_iff_toNat_le]

theorem continuation_has_iff {b : UInt8} :
    continuation.has b = true ↔ 0x80 ≤ b.toNat ∧ b.toNat ≤ 0xbf := has_iff

/-- The bytes that can follow a first byte, by the value of the first byte. -/
theorem trail_cases {a : UInt8} {ranges : List Range} (lead : trail a = some ranges) :
    a.toNat < 0x80 ∧ ranges = [] ∨
    0xc2 ≤ a.toNat ∧ a.toNat < 0xe0 ∧ ranges = [continuation] ∨
    0xe0 ≤ a.toNat ∧ a.toNat < 0xf0 ∧ ranges = [secondOfThree (a.toNat - 0xe0), continuation] ∨
    0xf0 ≤ a.toNat ∧ a.toNat < 0xf5 ∧
      ranges = [secondOfFour (a.toNat - 0xf0), continuation, continuation] := by
  have all : ∀ n < 256, ∀ ranges ∈ trail (.ofNat n),
      n < 0x80 ∧ ranges = [] ∨
      0xc2 ≤ n ∧ n < 0xe0 ∧ ranges = [continuation] ∨
      0xe0 ≤ n ∧ n < 0xf0 ∧ ranges = [secondOfThree (n - 0xe0), continuation] ∨
      0xf0 ≤ n ∧ n < 0xf5 ∧ ranges = [secondOfFour (n - 0xf0), continuation, continuation] := by
    decide +kernel
  exact all a.toNat a.toNat_lt ranges (by rw [UInt8.ofNat_toNat]; exact lead)

theorem secondOfThree_of_has {n : Nat} {b : UInt8} (fits : (secondOfThree n).has b = true) :
    0x80 ≤ b.toNat ∧ b.toNat ≤ 0xbf ∧ (n = 0 → 0xa0 ≤ b.toNat) ∧ (n = 13 → b.toNat ≤ 0x9f) := by
  unfold secondOfThree at fits
  split at fits
  · have bounds := has_iff.1 fits
    simp at bounds
    omega
  split at fits
  · have bounds := has_iff.1 fits
    simp at bounds
    omega
  · have bounds := continuation_has_iff.1 fits
    omega

theorem secondOfFour_of_has {n : Nat} {b : UInt8} (fits : (secondOfFour n).has b = true) :
    0x80 ≤ b.toNat ∧ b.toNat ≤ 0xbf ∧ (n = 0 → 0x90 ≤ b.toNat) ∧ (n = 4 → b.toNat ≤ 0x8f) := by
  unfold secondOfFour at fits
  split at fits
  · have bounds := has_iff.1 fits
    simp at bounds
    omega
  split at fits
  · have bounds := has_iff.1 fits
    simp at bounds
    omega
  · have bounds := continuation_has_iff.1 fits
    omega

theorem ofNat_eq {b : UInt8} {n : Nat} (same : b.toNat = n) : UInt8.ofNat n = b := by
  rw [← same, UInt8.ofNat_toNat]

/-- A first byte and the bytes that can follow it are the encoding of their character. -/
theorem encodeChar_scalarOf {a : UInt8} {ranges : List Range} {later : Bytes}
    (lead : trail a = some ranges) (fits : List.Forall₂ (fun r b => r.has b = true) ranges later) :
    String.utf8EncodeChar (scalarOf (a :: later)) = a :: later := by
  rcases trail_cases lead with ⟨small, rfl⟩ | ⟨low, high, rfl⟩ | ⟨low, high, rfl⟩ | ⟨low, high, rfl⟩
  · cases fits
    rw [scalarOf, encodeChar_ofNat (by omega), if_pos (by omega), UInt8.ofNat_toNat]
  · obtain ⟨b, _, second, nothing, rfl⟩ := List.forall₂_cons_left_iff.1 fits
    cases nothing
    have second := continuation_has_iff.1 second
    have value : accumulate (a.toNat % 32) [b] = a.toNat % 32 * 64 + b.toNat % 64 := rfl
    rw [scalarOf, value, encodeChar_ofNat (by omega), if_neg (by omega), if_pos (by omega),
      ofNat_eq (b := a) (by omega), ofNat_eq (b := b) (by omega)]
  · obtain ⟨b, _, second, fits', rfl⟩ := List.forall₂_cons_left_iff.1 fits
    obtain ⟨c, _, third, nothing, rfl⟩ := List.forall₂_cons_left_iff.1 fits'
    cases nothing
    have second := secondOfThree_of_has second
    have third := continuation_has_iff.1 third
    have value : accumulate (a.toNat % 16) [b, c] =
        (a.toNat % 16 * 64 + b.toNat % 64) * 64 + c.toNat % 64 := rfl
    rw [scalarOf, value, encodeChar_ofNat (by omega), if_neg (by omega), if_neg (by omega),
      if_pos (by omega), ofNat_eq (b := a) (by omega), ofNat_eq (b := b) (by omega),
      ofNat_eq (b := c) (by omega)]
  · obtain ⟨b, _, second, fits', rfl⟩ := List.forall₂_cons_left_iff.1 fits
    obtain ⟨c, _, third, fits'', rfl⟩ := List.forall₂_cons_left_iff.1 fits'
    obtain ⟨d, _, fourth, nothing, rfl⟩ := List.forall₂_cons_left_iff.1 fits''
    cases nothing
    have second := secondOfFour_of_has second
    have third := continuation_has_iff.1 third
    have fourth := continuation_has_iff.1 fourth
    have value : accumulate (a.toNat % 8) [b, c, d] =
        ((a.toNat % 8 * 64 + b.toNat % 64) * 64 + c.toNat % 64) * 64 + d.toNat % 64 := rfl
    rw [scalarOf, value, encodeChar_ofNat (by omega), if_neg (by omega), if_neg (by omega),
      if_neg (by omega), ofNat_eq (b := a) (by omega), ofNat_eq (b := b) (by omega),
      ofNat_eq (b := c) (by omega), ofNat_eq (b := d) (by omega)]
    all_goals simp

/-! ## Bytes that are read as a text -/

/-- An incomplete sequence begins a well-formed one. -/
def Partial.Begun (p : Partial) : Prop :=
  ∃ lead later fitted, p.read = lead :: later ∧ trail lead = some (fitted ++ p.missing) ∧
    List.Forall₂ (fun r b => r.has b = true) fitted later

/-- What bytes make if no junk is among them: the character that they encode, or an incomplete
sequence. -/
inductive Makes (bytes : Bytes) : Piece ⊕ Partial → Prop where
  | scalar {c : Char} (encoded : String.utf8EncodeChar c = bytes) : Makes bytes (.inl (.scalar c))
  | junk (junk : Bytes) : Makes bytes (.inl (.junk junk))
  | begun {p : Partial} (begun : p.Begun) (read : p.read = bytes) : Makes bytes (.inr p)

theorem makes_close {lead : UInt8} {later : Bytes} {fitted missing : List Range}
    (ranges : trail lead = some (fitted ++ missing))
    (fits : List.Forall₂ (fun r b => r.has b = true) fitted later) :
    Makes (lead :: later) (close (lead :: later) missing) := by
  rw [close]
  cases missing with
  | nil =>
    rw [List.append_nil] at ranges
    exact .scalar (encodeChar_scalarOf ranges fits)
  | cons r rest => exact .begun ⟨lead, later, fitted, rfl, ranges, fits⟩ rfl

theorem makes_opening (b : UInt8) : Makes [b] (opening b) := by
  rw [opening]
  cases ranges : trail b with
  | none => exact .junk [b]
  | some missing =>
    have ranges : trail b = some ([] ++ missing) := ranges
    exact makes_close ranges .nil

theorem makes_add {p : Partial} {b : UInt8} {found : Piece ⊕ Partial} (begun : p.Begun)
    (adds : p.add b = some found) : Makes (p.read ++ [b]) found := by
  obtain ⟨lead, later, fitted, read, ranges, fits⟩ := begun
  rw [Partial.add] at adds
  split at adds
  · next r rest missing =>
    split at adds
    · next fit =>
      cases adds
      have ranges : trail lead = some ((fitted ++ [r]) ++ rest) := by simpa [missing] using ranges
      rw [read]
      exact makes_close ranges (List.rel_append fits (.cons fit .nil))
    · cases adds
  · cases adds

theorem mapM_kept?_cons {piece : Piece} {pieces : List Piece} {text : List Char}
    (read : (piece :: pieces).mapM Piece.kept? = some text) :
    ∃ c rest, piece = .scalar c ∧ pieces.mapM Piece.kept? = some rest ∧ text = c :: rest := by
  rw [List.mapM_cons] at read
  cases piece with
  | junk => cases read
  | scalar c =>
    obtain ⟨_, kept, read⟩ := Option.bind_eq_some_iff.1 read
    obtain ⟨rest, later, same⟩ := Option.bind_eq_some_iff.1 read
    cases kept
    cases same
    exact ⟨c, rest, rfl, later, rfl⟩

/-- A byte string that is cut into characters has the bytes of these characters. -/
theorem encode_of_segmentFrom (bytes : Bytes) : ∀ (p : Option Partial) (text : List Char),
    (∀ q ∈ p, q.Begun) → (segmentFrom p bytes).mapM Piece.kept? = some text →
      encode text = (p.map Partial.read).getD [] ++ bytes := by
  induction bytes with
  | nil =>
    intro p text _ read
    cases p with
    | none =>
      cases read
      rfl
    | some p => cases read
  | cons b rest ih =>
    have onward : ∀ {found : Piece ⊕ Partial} {before : Bytes} {text : List Char}, Makes before found →
        (resume found rest).mapM Piece.kept? = some text → encode text = before ++ rest := by
      intro found before text makes read
      cases makes with
      | scalar encoded =>
        obtain ⟨c, later, same, onward, rfl⟩ := mapM_kept?_cons read
        cases same
        rw [encode, List.flatMap_cons, encoded]
        exact congrArg _ (ih none later (fun _ no => by cases no) onward)
      | junk => cases (mapM_kept?_cons read).choose_spec.choose_spec.1
      | begun begun same =>
        have whole := ih (some _) text (fun q own => Option.some.inj own ▸ begun) read
        rwa [Option.map_some, Option.getD_some, same] at whole
    intro p text begun read
    cases p with
    | none =>
      rw [segmentFrom_none_cons] at read
      exact onward (makes_opening b) read
    | some p =>
      rw [segmentFrom_some_cons] at read
      cases adds : p.add b with
      | none =>
        rw [adds] at read
        cases (mapM_kept?_cons read).choose_spec.choose_spec.1
      | some found =>
        rw [adds] at read
        have whole := onward (makes_add (begun p rfl) adds) read
        rwa [List.append_assoc] at whole

/-- The bytes that are read as a text are those of the text. -/
theorem decode?_eq_some_iff {bytes : Bytes} {text : List Char} :
    decode? bytes = some text ↔ encode text = bytes := by
  constructor
  · exact fun read => encode_of_segmentFrom bytes none text (fun _ no => by cases no) read
  · rintro rfl
    exact decode?_encode text

end DefTally.Text.Utf8
