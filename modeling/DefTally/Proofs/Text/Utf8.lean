import DefTally.Text.Utf8

/-!
# Decoding what was encoded

The bytes of a text are cut into the characters of the text and nothing else
(`segment_encode`), so that decoding gives the text back.
-/

namespace DefTally.Text.Utf8

variable {a b c d : UInt8} {q r s : Range}

/-! ## Sequences of each length -/

/-- A byte that stands alone is cut off as a character. -/
theorem segmentFrom_one (lead : trail a = some []) (rest : Bytes) :
    segmentFrom none (a :: rest) = .scalar (scalarOf [a]) :: segmentFrom none rest := by
  simp [segmentFrom, opening, lead, close]

/-- A byte that is followed by one more, with one in the range that it leaves, is cut off with it. -/
theorem segmentFrom_two (lead : trail a = some [q]) (second : q.has b = true) (rest : Bytes) :
    segmentFrom none (a :: b :: rest) = .scalar (scalarOf [a, b]) :: segmentFrom none rest := by
  simp [segmentFrom, opening, lead, close, Partial.add, second]

/-- A byte that is followed by two more is cut off with them, if they are in the ranges that it leaves. -/
theorem segmentFrom_three (lead : trail a = some [q, r]) (second : q.has b = true)
    (third : r.has c = true) (rest : Bytes) :
    segmentFrom none (a :: b :: c :: rest) =
      .scalar (scalarOf [a, b, c]) :: segmentFrom none rest := by
  simp [segmentFrom, opening, lead, close, Partial.add, second, third]

/-- A byte that is followed by three more is cut off with them, if they are in the ranges that it
leaves. -/
theorem segmentFrom_four (lead : trail a = some [q, r, s]) (second : q.has b = true)
    (third : r.has c = true) (fourth : s.has d = true) (rest : Bytes) :
    segmentFrom none (a :: b :: c :: d :: rest) =
      .scalar (scalarOf [a, b, c, d]) :: segmentFrom none rest := by
  simp [segmentFrom, opening, lead, close, Partial.add, second, third, fourth]

/-! ## The bytes of a character -/

theorem trail_one : ∀ n < 0x80, trail (.ofNat n) = some [] := by
  decide

theorem trail_two : ∀ n < 0x20, 2 ≤ n → trail (.ofNat (n + 0xc0)) = some [continuation] := by
  decide

/-- The first continuation byte after a byte of a sequence of three. -/
def secondOfThree (n : Nat) : Range :=
  if n = 0 then ⟨0xa0, 0xbf⟩ else if n = 13 then ⟨0x80, 0x9f⟩ else continuation

theorem trail_three : ∀ n < 0x10,
    trail (.ofNat (n + 0xe0)) = some [secondOfThree n, continuation] := by
  decide

/-- The first continuation byte after a byte of a sequence of four. -/
def secondOfFour (n : Nat) : Range :=
  if n = 0 then ⟨0x90, 0xbf⟩ else if n = 4 then ⟨0x80, 0x8f⟩ else continuation

theorem trail_four : ∀ n < 5,
    trail (.ofNat (n + 0xf0)) = some [secondOfFour n, continuation, continuation] := by
  decide

/-- Six bits make a continuation byte. -/
theorem continuation_has : ∀ n < 0x40, continuation.has (.ofNat (n + 0x80)) = true := by
  decide

/-- In sequences of three the second byte excludes what is too long and what is a surrogate. -/
theorem secondOfThree_has : ∀ n < 0x10, ∀ m < 0x40, (n = 0 → 0x20 ≤ m) → (n = 13 → m < 0x20) →
    (secondOfThree n).has (.ofNat (m + 0x80)) = true := by
  decide

/-- In sequences of four the second byte excludes what is too long and what is beyond the last code
point. -/
theorem secondOfFour_has : ∀ n < 5, ∀ m < 0x40, (n = 0 → 0x10 ≤ m) → (n = 4 → m < 0x10) →
    (secondOfFour n).has (.ofNat (m + 0x80)) = true := by
  decide

/-- The marking bits of a byte are dropped by a remainder. -/
theorem toNat_ofNat_mod {n k m : Nat} (less : n + k < 256) (cut : k % m = 0) (fits : n < m) :
    (UInt8.ofNat (n + k)).toNat % m = n := by
  have value : (UInt8.ofNat (n + k)).toNat = n + k := by
    rw [UInt8.toNat_ofNat', Nat.mod_eq_of_lt less]
  rw [value, Nat.add_mod, cut, Nat.add_zero, Nat.mod_mod, Nat.mod_eq_of_lt fits]

theorem continued (m : Nat) : (UInt8.ofNat (m % 0x40 + 0x80)).toNat % 64 = m % 0x40 :=
  toNat_ofNat_mod (by omega) rfl (by omega)

section Encoded

variable {n : Nat}

/-! A number is read back from the bytes that a character with it has. -/

theorem segmentFrom_encoded_one (high : n ≤ 0x7f) (rest : Bytes) :
    segmentFrom none (.ofNat n :: rest) = .scalar (Char.ofNat n) :: segmentFrom none rest := by
  have value : (UInt8.ofNat n).toNat = n := by
    rw [UInt8.toNat_ofNat', Nat.mod_eq_of_lt (by omega)]
  rw [segmentFrom_one (trail_one n (by omega)), scalarOf, value]

theorem segmentFrom_encoded_two (low : 0x7f < n) (high : n ≤ 0x7ff) (rest : Bytes) :
    segmentFrom none (.ofNat (n / 64 % 0x20 + 0xc0) :: .ofNat (n % 0x40 + 0x80) :: rest) =
      .scalar (Char.ofNat n) :: segmentFrom none rest := by
  have first : (UInt8.ofNat (n / 64 % 0x20 + 0xc0)).toNat % 32 = n / 64 % 0x20 :=
    toNat_ofNat_mod (by omega) rfl (by omega)
  have sum : (n / 64 % 0x20) * 64 + n % 0x40 = n := by omega
  rw [segmentFrom_two (trail_two _ (by omega) (by omega)) (continuation_has _ (by omega)), scalarOf,
    accumulate, List.foldl_cons, List.foldl_nil, first, continued, sum]

theorem segmentFrom_encoded_three (low : 0x7ff < n) (high : n ≤ 0xffff)
    (valid : n < 0xd800 ∨ 0xdfff < n) (rest : Bytes) :
    segmentFrom none (.ofNat (n / 4096 % 0x10 + 0xe0) :: .ofNat (n / 64 % 0x40 + 0x80) ::
        .ofNat (n % 0x40 + 0x80) :: rest) = .scalar (Char.ofNat n) :: segmentFrom none rest := by
  have first : (UInt8.ofNat (n / 4096 % 0x10 + 0xe0)).toNat % 16 = n / 4096 % 0x10 :=
    toNat_ofNat_mod (by omega) rfl (by omega)
  have sum : (n / 4096 % 0x10 * 64 + n / 64 % 0x40) * 64 + n % 0x40 = n := by omega
  rw [segmentFrom_three (trail_three _ (by omega))
      (secondOfThree_has _ (by omega) _ (by omega) (by omega) (by omega))
      (continuation_has _ (by omega)), scalarOf,
    accumulate, List.foldl_cons, List.foldl_cons, List.foldl_nil, first, continued, continued, sum]

theorem segmentFrom_encoded_four (low : 0xffff < n) (high : n < 0x110000) (rest : Bytes) :
    segmentFrom none (.ofNat (n / 262144 % 0x08 + 0xf0) :: .ofNat (n / 4096 % 0x40 + 0x80) ::
        .ofNat (n / 64 % 0x40 + 0x80) :: .ofNat (n % 0x40 + 0x80) :: rest) =
      .scalar (Char.ofNat n) :: segmentFrom none rest := by
  have first : (UInt8.ofNat (n / 262144 % 0x08 + 0xf0)).toNat % 8 = n / 262144 % 0x08 :=
    toNat_ofNat_mod (by omega) rfl (by omega)
  have sum : ((n / 262144 % 0x08 * 64 + n / 4096 % 0x40) * 64 + n / 64 % 0x40) * 64 + n % 0x40 =
      n := by omega
  rw [segmentFrom_four (trail_four _ (by omega))
      (secondOfFour_has _ (by omega) _ (by omega) (by omega) (by omega))
      (continuation_has _ (by omega)) (continuation_has _ (by omega)), scalarOf]
  · rw [accumulate, List.foldl_cons, List.foldl_cons, List.foldl_cons, List.foldl_nil, first,
      continued, continued, continued, sum]
  all_goals simp

end Encoded

/-- The bytes of a character are cut off as that character. -/
theorem segmentFrom_encodeChar (x : Char) (rest : Bytes) :
    segmentFrom none (String.utf8EncodeChar x ++ rest) = .scalar x :: segmentFrom none rest := by
  have valid : x.toNat < 0xd800 ∨ 0xdfff < x.toNat ∧ x.toNat < 0x110000 := x.valid
  have same : Char.ofNat x.toNat = x := Char.ofNat_toNat x
  have unfolded : String.utf8EncodeChar x =
      if x.toNat ≤ 0x7f then [.ofNat x.toNat]
      else if x.toNat ≤ 0x7ff then [.ofNat (x.toNat / 64 % 0x20 + 0xc0), .ofNat (x.toNat % 0x40 + 0x80)]
      else if x.toNat ≤ 0xffff then [.ofNat (x.toNat / 4096 % 0x10 + 0xe0),
        .ofNat (x.toNat / 64 % 0x40 + 0x80), .ofNat (x.toNat % 0x40 + 0x80)]
      else [.ofNat (x.toNat / 262144 % 0x08 + 0xf0), .ofNat (x.toNat / 4096 % 0x40 + 0x80),
        .ofNat (x.toNat / 64 % 0x40 + 0x80), .ofNat (x.toNat % 0x40 + 0x80)] := rfl
  rw [unfolded]
  split
  · next one => rw [List.singleton_append, segmentFrom_encoded_one one, same]
  split
  · next more two =>
    simp only [List.cons_append, List.nil_append]
    rw [segmentFrom_encoded_two (Nat.not_le.1 more) two, same]
  split
  · next more three =>
    simp only [List.cons_append, List.nil_append]
    rw [segmentFrom_encoded_three (Nat.not_le.1 more) three (valid.imp_right And.left), same]
  · next more =>
    have inRange : x.toNat < 0x110000 := valid.elim (Nat.lt_trans · (by decide)) And.right
    simp only [List.cons_append, List.nil_append]
    rw [segmentFrom_encoded_four (Nat.not_le.1 more) inRange, same]

/-! ## Texts -/

/-- Texts can be encoded one by one. -/
theorem flatten_map_encode (pieces : List (List Char)) :
    (pieces.map encode).flatten = encode pieces.flatten := by
  rw [encode, List.flatMap_def, List.map_flatten, List.flatten_flatten, List.map_map]
  rfl

/-- The bytes of a text are cut into its characters. -/
theorem segment_encode (text : List Char) : segment (encode text) = text.map .scalar := by
  induction text with
  | nil => rfl
  | cons x rest ih =>
    have first := segmentFrom_encodeChar x (encode rest)
    rw [encode, List.flatMap_cons]
    exact first.trans (by rw [List.map_cons, ← ih]; rfl)

/-- Decoding gives back the text that was encoded. -/
theorem decodeKept_encode (text : List Char) : decodeKept (encode text) = text := by
  rw [decodeKept, segment_encode, List.filterMap_map]
  exact List.filterMap_some

/-- The bytes of a text are read as that text. -/
theorem decode?_encode (text : List Char) : decode? (encode text) = some text := by
  rw [decode?, segment_encode]
  induction text with
  | nil => rfl
  | cons c rest ih => rw [List.map_cons, List.mapM_cons, ih]; rfl

end DefTally.Text.Utf8
