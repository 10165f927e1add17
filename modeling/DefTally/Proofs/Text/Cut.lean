import DefTally.Proofs.Text.Utf8

/-!
# Where byte strings can be cut

No well-formed sequence goes on over a byte that is no continuation byte, so a byte string is cut
there whatever came before (`segment_append`). Decoding is therefore a homomorphism at such places:
bytes that decode to nothing may stand before them unnoticed, and ASCII bytes come through.
-/

namespace DefTally.Text.Utf8

/-- A byte string can begin a piece: it is empty or begins with no continuation byte. -/
def Fresh (bytes : Bytes) : Prop := ∀ b ∈ bytes.head?, continuation.has b = false

/-- Only continuation bytes fit what is missing of a sequence. -/
def Partial.Continued (p : Partial) : Prop :=
  ∀ r ∈ p.missing, ∀ b, r.has b = true → continuation.has b = true

theorem has_of_narrow {low high b : UInt8} (fits : (Range.mk low high).has b = true)
    (above : 0x80 ≤ low) (below : high ≤ 0xbf) : continuation.has b = true := by
  rw [Range.has, Bool.and_eq_true, decide_eq_true_eq, decide_eq_true_eq] at fits ⊢
  exact ⟨UInt8.le_trans above fits.1, UInt8.le_trans fits.2 below⟩

theorem continued_trail {b : UInt8} {ranges : List Range} (lead : trail b = some ranges) :
    ∀ r ∈ ranges, ∀ c, r.has c = true → continuation.has c = true := by
  have narrow : ∀ r ∈ ranges, 0x80 ≤ r.low ∧ r.high ≤ 0xbf := by
    unfold trail at lead
    repeat' split at lead
    all_goals cases lead <;> decide
  intro r inside c fits
  exact has_of_narrow fits (narrow r inside).1 (narrow r inside).2

/-- What is not complete after a byte lacks continuation bytes. -/
theorem continued_opening {b : UInt8} {p : Partial} (opens : opening b = .inr p) : p.Continued := by
  unfold opening close at opens
  split at opens
  · cases opens
  · next lead =>
    split at opens
    · cases opens
    · cases opens
      exact continued_trail lead

theorem continued_add {p q : Partial} {b : UInt8} (continued : p.Continued)
    (adds : p.add b = some (.inr q)) : q.Continued := by
  unfold Partial.add close at adds
  split at adds
  · next r rest missing =>
    split at adds
    · split at adds
      · cases adds
      · cases adds
        intro s inside
        exact continued s (missing ▸ List.mem_cons_of_mem _ inside)
    · cases adds
  · cases adds

theorem add_eq_none {p : Partial} {b : UInt8} (continued : p.Continued)
    (fresh : continuation.has b = false) : p.add b = none := by
  unfold Partial.add
  split
  · next r rest missing =>
    refine if_neg fun fits => ?_
    rw [continued r (missing ▸ List.mem_cons_self) b fits] at fresh
    cases fresh
  · rfl

/-- The pieces from a byte on, given what the byte completes or leaves incomplete. -/
def resume (found : Piece ⊕ Partial) (rest : Bytes) : List Piece :=
  match found with
  | .inl piece => piece :: segmentFrom none rest
  | .inr p => segmentFrom (some p) rest

theorem segmentFrom_none_cons (b : UInt8) (rest : Bytes) :
    segmentFrom none (b :: rest) = resume (opening b) rest := by
  rw [segmentFrom]
  rfl

theorem segmentFrom_some_cons (p : Partial) (b : UInt8) (rest : Bytes) :
    segmentFrom (some p) (b :: rest) = match p.add b with
      | some found => resume found rest
      | none => .junk p.read :: resume (opening b) rest := by
  rw [segmentFrom]
  cases p.add b with
  | none => rfl
  | some found => cases found <;> rfl

/-- A byte that is no continuation byte begins a new piece, whatever came before. -/
theorem segmentFrom_append {v : Bytes} (fresh : Fresh v) (u : Bytes) :
    ∀ p : Option Partial, (∀ q ∈ p, q.Continued) →
      segmentFrom p (u ++ v) = segmentFrom p u ++ segmentFrom none v := by
  induction u with
  | nil =>
    intro p continued
    cases p with
    | none => simp [segmentFrom]
    | some p =>
      cases v with
      | nil => simp [segmentFrom]
      | cons b rest =>
        have cut := add_eq_none (continued p rfl) (fresh b rfl)
        rw [List.nil_append, segmentFrom_some_cons, cut, segmentFrom_none_cons]
        rfl
  | cons b u ih =>
    have onward : ∀ found : Piece ⊕ Partial, (∀ q, found = .inr q → q.Continued) →
        resume found (u ++ v) = resume found u ++ segmentFrom none v := by
      intro found continued
      cases found with
      | inl piece => exact congrArg (piece :: ·) (ih none (fun _ no => by cases no))
      | inr q => exact ih (some q) (fun _ same => Option.some.inj same ▸ continued q rfl)
    intro p continued
    cases p with
    | none =>
      rw [List.cons_append, segmentFrom_none_cons, segmentFrom_none_cons]
      exact onward _ (fun q opens => continued_opening opens)
    | some p =>
      rw [List.cons_append, segmentFrom_some_cons, segmentFrom_some_cons]
      cases adds : p.add b with
      | some found =>
        refine onward found fun q same => ?_
        exact continued_add (continued p rfl) (adds.trans (congrArg some same))
      | none =>
        exact congrArg (.junk p.read :: ·) (onward _ (fun q opens => continued_opening opens))

/-- The pieces of two byte strings one after the other, where the second can begin a piece. -/
theorem segment_append (u : Bytes) {v : Bytes} (fresh : Fresh v) :
    segment (u ++ v) = segment u ++ segment v :=
  segmentFrom_append fresh u none (fun _ no => by cases no)

theorem decodeKept_append (u : Bytes) {v : Bytes} (fresh : Fresh v) :
    decodeKept (u ++ v) = decodeKept u ++ decodeKept v := by
  rw [decodeKept, segment_append u fresh, List.filterMap_append]
  rfl

theorem decodeLossy_append (u : Bytes) {v : Bytes} (fresh : Fresh v) :
    decodeLossy (u ++ v) = decodeLossy u ++ decodeLossy v := by
  rw [decodeLossy, segment_append u fresh, List.map_append]
  rfl

/-! ## Texts among bytes -/

theorem encode_append (a b : List Char) : encode (a ++ b) = encode a ++ encode b :=
  List.flatMap_append

/-- No sequence begins with a continuation byte. -/
theorem trail_of_continuation {b : UInt8} (inside : continuation.has b = true) : trail b = none := by
  rw [Range.has, Bool.and_eq_true, decide_eq_true_eq, decide_eq_true_eq] at inside
  obtain ⟨above, below⟩ := inside
  have low : 0x80 ≤ b.toNat := UInt8.le_iff_toNat_le.1 above
  have high : b.toNat ≤ 0xbf := UInt8.le_iff_toNat_le.1 below
  have notAscii : ¬b < 0x80 := fun less => by
    have := UInt8.lt_iff_toNat_lt.1 less
    simp at this
    omega
  have notLead : b < 0xc2 := UInt8.lt_iff_toNat_lt.2 (by simp; omega)
  rw [trail, if_neg notAscii, if_pos notLead]

/-- The bytes of a character can begin a piece. -/
theorem fresh_encodeChar (c : Char) (rest : Bytes) : Fresh (String.utf8EncodeChar c ++ rest) := by
  intro b first
  cases inside : continuation.has b with
  | false => rfl
  | true =>
    obtain ⟨later, bytes⟩ := List.head?_eq_some_iff.1 first
    have piece := segmentFrom_encodeChar c rest
    rw [bytes, segmentFrom_none_cons, opening, trail_of_continuation inside] at piece
    simp [resume] at piece

theorem decodeLossy_encode (text : List Char) : decodeLossy (encode text) = text := by
  rw [decodeLossy, segment_encode, List.map_map]
  exact List.map_id text

/-- A byte string is the bytes of a text. -/
def IsText (bytes : Bytes) : Prop := ∃ text, encode text = bytes

theorem IsText.append {a b : Bytes} (first : IsText a) (second : IsText b) : IsText (a ++ b) := by
  obtain ⟨x, rfl⟩ := first
  obtain ⟨y, rfl⟩ := second
  exact ⟨x ++ y, encode_append x y⟩

/-- What is shown of a text's bytes has these bytes. -/
theorem IsText.encode_decodeLossy {bytes : Bytes} (isText : IsText bytes) :
    encode (decodeLossy bytes) = bytes := by
  obtain ⟨text, rfl⟩ := isText
  rw [decodeLossy_encode]

instance (bytes : Bytes) : Decidable (IsText bytes) :=
  decidable_of_iff (encode (decodeLossy bytes) = bytes)
    ⟨fun same => ⟨_, same⟩, IsText.encode_decodeLossy⟩

end DefTally.Text.Utf8
