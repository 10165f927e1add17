import DefTally.Proofs.Text.Sound

/-!
# The standard way to cut bytes

Table 3-7 of the Unicode standard gives the well-formed sequences of bytes by the ranges of their
bytes (`sequenceTable`). `Cuts` is how a byte string is cut by that table alone, from left to right: a
well-formed sequence is kept, and where there is none the longest beginning of one is cut off, or one
byte. There is one way to do that (`Cuts.unique`), and the decoders do it (`cuts_segment`). So they
agree with each other about what is cut off, and what they keep can be told from the table
(`decode_standard`).
-/

namespace DefTally.Text.Utf8

/-- The well-formed sequences by the ranges of their bytes, a row of Table 3-7 each. -/
def sequenceTable : List (List Range) :=
  [[⟨0x00, 0x7f⟩],
    [⟨0xc2, 0xdf⟩, ⟨0x80, 0xbf⟩],
    [⟨0xe0, 0xe0⟩, ⟨0xa0, 0xbf⟩, ⟨0x80, 0xbf⟩],
    [⟨0xe1, 0xec⟩, ⟨0x80, 0xbf⟩, ⟨0x80, 0xbf⟩],
    [⟨0xed, 0xed⟩, ⟨0x80, 0x9f⟩, ⟨0x80, 0xbf⟩],
    [⟨0xee, 0xef⟩, ⟨0x80, 0xbf⟩, ⟨0x80, 0xbf⟩],
    [⟨0xf0, 0xf0⟩, ⟨0x90, 0xbf⟩, ⟨0x80, 0xbf⟩, ⟨0x80, 0xbf⟩],
    [⟨0xf1, 0xf3⟩, ⟨0x80, 0xbf⟩, ⟨0x80, 0xbf⟩, ⟨0x80, 0xbf⟩],
    [⟨0xf4, 0xf4⟩, ⟨0x80, 0x8f⟩, ⟨0x80, 0xbf⟩, ⟨0x80, 0xbf⟩]]

/-- Bytes that are in ranges, each in its own. -/
abbrev Fits (ranges : List Range) (bytes : Bytes) : Prop :=
  List.Forall₂ (fun r b => r.has b = true) ranges bytes

/-- A well-formed sequence: its bytes are in the ranges of a row. -/
def WellFormed (bytes : Bytes) : Prop := ∃ row ∈ sequenceTable, Fits row bytes

instance (bytes : Bytes) : Decidable (WellFormed bytes) :=
  inferInstanceAs (Decidable (∃ row ∈ sequenceTable, Fits row bytes))

/-- Bytes that are some of a well-formed sequence, from its first one on, and not all of it. -/
def Unfinished (bytes : Bytes) : Prop := bytes ≠ [] ∧ ∃ more, more ≠ [] ∧ WellFormed (bytes ++ more)

/-- What is cut off in front of other bytes where there is no well-formed sequence: the longest
beginning of one, or one byte if there is none. -/
structure CutOff (junk rest : Bytes) : Prop where
  noSequence : ∀ s, s <+: junk ++ rest → ¬ WellFormed s
  longest : (Unfinished junk ∧ ∀ s, s <+: junk ++ rest → Unfinished s → s.length ≤ junk.length) ∨
    (junk.length = 1 ∧ ∀ s, s <+: junk ++ rest → ¬ Unfinished s)

/-- A part of a byte string that is cut by the table. -/
inductive Fragment where
  | kept (bytes : Bytes)
  | cut (bytes : Bytes)
  deriving DecidableEq, Repr

/-- A byte string is cut into fragments, from left to right. -/
inductive Cuts : Bytes → List Fragment → Prop where
  | nil : Cuts [] []
  | kept {s rest : Bytes} {fragments : List Fragment} (wellFormed : WellFormed s)
      (further : Cuts rest fragments) : Cuts (s ++ rest) (.kept s :: fragments)
  | cut {junk rest : Bytes} {fragments : List Fragment} (cutOff : CutOff junk rest)
      (further : Cuts rest fragments) : Cuts (junk ++ rest) (.cut junk :: fragments)

variable {bytes s t rest junk : Bytes} {fragments others : List Fragment}

/-! ## The table by first bytes -/

/-- The rows that a byte can begin a sequence of: at most one, whose other ranges are the trail of the
byte. -/
theorem rows_of_lead : ∀ n < 256,
    (sequenceTable.filter fun row => row.head?.any fun r => r.has (.ofNat n)).map List.tail =
      (trail (.ofNat n)).toList := by
  decide +kernel

theorem exists_row_iff {lead : UInt8} {ranges : List Range} :
    trail lead = some ranges ↔ ∃ r, r :: ranges ∈ sequenceTable ∧ r.has lead = true := by
  have rows := rows_of_lead lead.toNat lead.toNat_lt
  rw [UInt8.ofNat_toNat] at rows
  rw [← Option.mem_toList.trans Option.mem_def, ← rows, List.mem_map]
  constructor
  · rintro ⟨row, inside, rfl⟩
    obtain ⟨listed, fits⟩ := List.mem_filter.1 inside
    cases row with
    | nil => cases fits
    | cons r ranges => exact ⟨r, listed, fits⟩
  · rintro ⟨r, listed, fits⟩
    exact ⟨r :: ranges, List.mem_filter.2 ⟨listed, fits⟩, rfl⟩

/-- A well-formed sequence is a first byte and bytes that fit its trail. -/
theorem wellFormed_iff : WellFormed s ↔
    ∃ lead later ranges, s = lead :: later ∧ trail lead = some ranges ∧ Fits ranges later := by
  constructor
  · rintro ⟨row, listed, fits⟩
    have filled : ∀ row ∈ sequenceTable, row ≠ [] := by decide
    cases fits with
    | nil => exact absurd rfl (filled _ listed)
    | cons first further => exact ⟨_, _, _, rfl, exists_row_iff.2 ⟨_, listed, first⟩, further⟩
  · rintro ⟨lead, later, ranges, rfl, known, fits⟩
    obtain ⟨r, listed, first⟩ := exists_row_iff.1 known
    exact ⟨r :: ranges, listed, .cons first fits⟩

/-- Of the beginnings of a byte string at most one is a well-formed sequence. -/
theorem WellFormed.eq_of_prefix (first : WellFormed s) (second : WellFormed t) (before : s <+: bytes)
    (before' : t <+: bytes) : s = t := by
  obtain ⟨lead, later, ranges, rfl, known, fits⟩ := wellFormed_iff.1 first
  obtain ⟨lead', later', ranges', rfl, known', fits'⟩ := wellFormed_iff.1 second
  obtain ⟨more, rfl⟩ := before
  obtain ⟨more', same⟩ := before'
  obtain ⟨rfl, -⟩ := List.cons.inj same
  rw [known, Option.some.injEq] at known'
  subst known'
  have length : (lead' :: later').length = (lead' :: later).length := by
    rw [List.length_cons, List.length_cons, ← fits.length_eq, ← fits'.length_eq]
  exact (List.append_inj same length).1.symm

theorem WellFormed.ne_nil (wellFormed : WellFormed s) : s ≠ [] := by
  obtain ⟨lead, later, -, rfl, -⟩ := wellFormed_iff.1 wellFormed
  exact List.cons_ne_nil lead later

/-! ## One way to cut -/

theorem CutOff.ne_nil (cutOff : CutOff junk rest) : junk ≠ [] := by
  rcases cutOff.longest with ⟨unfinished, -⟩ | ⟨one, -⟩
  · exact unfinished.1
  · rintro rfl
    cases one

/-- What is cut off in front of a byte string is determined by all of it. -/
theorem CutOff.unique {junk' rest' : Bytes} (cutOff : CutOff junk rest) (cutOff' : CutOff junk' rest')
    (same : junk ++ rest = junk' ++ rest') : junk = junk' := by
  have before : junk <+: junk' ++ rest' := ⟨rest, same⟩
  have before' : junk' <+: junk ++ rest := ⟨rest', same.symm⟩
  have length : junk.length = junk'.length := by
    rcases cutOff.longest with ⟨begun, most⟩ | ⟨one, none⟩ <;>
      rcases cutOff'.longest with ⟨begun', most'⟩ | ⟨one', none'⟩
    · exact Nat.le_antisymm (most' _ before begun) (most _ before' begun')
    · exact absurd begun (none' _ before)
    · exact absurd begun' (none _ before')
    · rw [one, one']
  exact (List.append_inj same length).1

/-- A byte string is cut in one way only. -/
theorem Cuts.unique (cuts : Cuts bytes fragments) :
    ∀ {others}, Cuts bytes others → fragments = others := by
  induction cuts with
  | nil =>
    intro others cuts'
    generalize same : ([] : Bytes) = all at cuts'
    cases cuts' with
    | nil => rfl
    | kept wellFormed _ => exact absurd (List.append_eq_nil_iff.1 same.symm).1 wellFormed.ne_nil
    | cut cutOff _ => exact absurd (List.append_eq_nil_iff.1 same.symm).1 cutOff.ne_nil
  | @kept s rest fragments wellFormed _ ih =>
    intro others cuts'
    generalize same : s ++ rest = all at cuts'
    have before : s <+: all := ⟨rest, same⟩
    cases cuts' with
    | nil => exact absurd (List.append_eq_nil_iff.1 same).1 wellFormed.ne_nil
    | kept wellFormed' further =>
      obtain rfl := wellFormed.eq_of_prefix wellFormed' before (List.prefix_append _ _)
      rw [ih (List.append_cancel_left same ▸ further)]
    | cut cutOff _ => exact absurd wellFormed (cutOff.noSequence s before)
  | @cut junk rest fragments cutOff _ ih =>
    intro others cuts'
    generalize same : junk ++ rest = all at cuts'
    cases cuts' with
    | nil => exact absurd (List.append_eq_nil_iff.1 same).1 cutOff.ne_nil
    | kept wellFormed _ =>
      exact absurd wellFormed (cutOff.noSequence _ (same ▸ List.prefix_append _ _))
    | cut cutOff' further =>
      obtain rfl := cutOff.unique cutOff' same
      rw [ih (List.append_cancel_left same ▸ further)]

/-- A byte string that is cut can be parted between any two of its fragments. -/
theorem Cuts.part {later : List Fragment} : ∀ {fragments : List Fragment} {bytes : Bytes},
    Cuts bytes (fragments ++ later) → ∃ u v, bytes = u ++ v ∧ Cuts u fragments ∧ Cuts v later := by
  intro fragments
  induction fragments with
  | nil => exact fun {bytes} cuts => ⟨[], bytes, rfl, .nil, cuts⟩
  | cons fragment fragments ih =>
    intro bytes cuts
    cases cuts with
    | kept wellFormed further =>
      obtain ⟨u, v, rfl, first, second⟩ := ih further
      exact ⟨_ ++ u, v, (List.append_assoc _ u v).symm, .kept wellFormed first, second⟩
    | @cut junk _ _ cutOff further =>
      obtain ⟨u, v, rfl, first, second⟩ := ih further
      -- Less comes after the junk now, so there are no more beginnings to choose from.
      have fewer : ∀ s, s <+: junk ++ u → s <+: junk ++ (u ++ v) := fun s before =>
        before.trans ⟨v, List.append_assoc junk u v⟩
      refine ⟨junk ++ u, v, (List.append_assoc junk u v).symm, .cut ⟨?_, ?_⟩ first, second⟩
      · exact fun s before => cutOff.noSequence s (fewer s before)
      · exact cutOff.longest.imp
          (fun long => ⟨long.1, fun s before => long.2 s (fewer s before)⟩)
          (fun one => ⟨one.1, fun s before => one.2 s (fewer s before)⟩)

/-! ## What the decoders cut -/

/-- A piece as a fragment of the bytes. -/
def Piece.fragment : Piece → Fragment
  | .scalar c => .kept (String.utf8EncodeChar c)
  | .junk bytes => .cut bytes

theorem trail_nonempty : ∀ n < 256, ∀ ranges ∈ trail (.ofNat n), ∀ r ∈ ranges, r.has r.low = true := by
  decide +kernel

/-- Any ranges in the trail of a byte are those of some bytes. -/
theorem exists_fits {lead : UInt8} {fitted missing : List Range}
    (known : trail lead = some (fitted ++ missing)) : ∃ more, Fits missing more := by
  have inhabited := trail_nonempty lead.toNat lead.toNat_lt (fitted ++ missing)
    (by rw [UInt8.ofNat_toNat]; exact known)
  refine ⟨missing.map Range.low, List.forall₂_map_right_iff.2 (List.forall₂_same.2 fun r inside => ?_)⟩
  exact inhabited r (List.mem_append_right _ inside)

section Begun

variable {p : Partial} {r : Range} {missing : List Range}

/-- A sequence that is not complete goes on with a byte of the range that comes next, or not at all. -/
theorem Partial.Begun.not_wellFormed (begun : p.Begun) (next : p.missing = r :: missing)
    (stops : ∀ b ∈ rest.head?, r.has b = false) : ∀ s, s <+: p.read ++ rest → ¬ WellFormed s := by
  rintro s ⟨after, whole⟩ wellFormed
  obtain ⟨lead, later, fitted, read, known, fits⟩ := begun
  obtain ⟨lead', later', ranges, rfl, known', fits'⟩ := wellFormed_iff.1 wellFormed
  rw [read] at whole
  obtain rfl : lead' = lead := (List.cons.inj whole).1
  have same : later' ++ after = later ++ rest := (List.cons.inj whole).2
  rw [known', next, Option.some.injEq] at known
  subst known
  have onward := List.forall₂_drop fitted.length fits'
  rw [List.drop_left] at onward
  obtain ⟨b, more, fit, -, split⟩ := List.forall₂_cons_left_iff.1 onward
  have long : fitted.length ≤ later'.length := by
    rw [← fits'.length_eq, List.length_append]
    exact Nat.le_add_right _ _
  have first : rest = b :: (more ++ after) := by
    have behind : (later ++ rest).drop later.length = rest := List.drop_left
    rw [← behind, ← same, ← fits.length_eq, List.drop_append_of_le_length long, split,
      List.cons_append]
  rw [stops b (by rw [first]; rfl)] at fit
  cases fit

/-- A sequence that is not complete is cut off in front of what it does not go on with. -/
theorem Partial.Begun.cutOff (begun : p.Begun) (next : p.missing = r :: missing)
    (stops : ∀ b ∈ rest.head?, r.has b = false) : CutOff p.read rest := by
  refine ⟨begun.not_wellFormed next stops, .inl ⟨?_, fun s before unfinished => ?_⟩⟩
  · obtain ⟨lead, later, fitted, read, known, fits⟩ := begun
    obtain ⟨more, further⟩ := exists_fits known
    refine ⟨by rw [read]; exact List.cons_ne_nil _ _, more, ?_, ?_⟩
    · rintro rfl
      rw [next] at further
      cases further
    · rw [read]
      exact wellFormed_iff.2 ⟨lead, later ++ more, _, rfl, known, List.rel_append fits further⟩
  · obtain ⟨-, more, -, wellFormed⟩ := unfinished
    obtain ⟨after, whole⟩ := before
    rcases List.append_eq_append_iff.1 whole with ⟨a, read, -⟩ | ⟨c, rfl, rfl⟩
    · rw [read, List.length_append]
      exact Nat.le_add_right _ _
    · cases c with
      | nil => simp
      | cons b c =>
        have stops' : ∀ b' ∈ (b :: (c ++ more)).head?, r.has b' = false := stops
        refine absurd wellFormed (begun.not_wellFormed next stops' _ ?_)
        rw [List.append_assoc]
        exact List.prefix_refl _

theorem Partial.add_of_next (next : p.missing = r :: missing) (b : UInt8) :
    p.add b = if r.has b then some (close (p.read ++ [b]) missing) else none := by
  rw [Partial.add, next]

end Begun

/-- What may come before bytes that are still to be cut: nothing, or a sequence that is not complete. -/
abbrev Pending (p : Option Partial) : Prop := ∀ q ∈ p, q.Begun ∧ q.missing ≠ []

/-- Bytes that fit are kept if they are complete, and else wait for what comes next. -/
theorem cuts_close {read : Bytes} {missing : List Range} (begun : Partial.Begun ⟨read, missing⟩)
    (further : ∀ p, Pending p →
      Cuts ((p.map Partial.read).getD [] ++ rest) ((segmentFrom p rest).map Piece.fragment)) :
    Cuts (read ++ rest) ((resume (close read missing) rest).map Piece.fragment) := by
  cases missing with
  | nil =>
    obtain ⟨lead, later, fitted, rfl, known, fits⟩ := begun
    have known : trail lead = some fitted := by simpa using known
    have piece : (Piece.scalar (scalarOf (lead :: later))).fragment = .kept (lead :: later) :=
      congrArg Fragment.kept (encodeChar_scalarOf known fits)
    have wellFormed : WellFormed (lead :: later) :=
      wellFormed_iff.2 ⟨lead, later, fitted, rfl, known, fits⟩
    have onward := Cuts.kept wellFormed (further none fun _ no => by cases no)
    rw [← piece] at onward
    exact onward
  | cons r missing =>
    exact further (some ⟨read, r :: missing⟩) fun q own => by
      cases own
      exact ⟨begun, List.cons_ne_nil _ _⟩

theorem cuts_opening (b : UInt8)
    (further : ∀ p, Pending p →
      Cuts ((p.map Partial.read).getD [] ++ rest) ((segmentFrom p rest).map Piece.fragment)) :
    Cuts (b :: rest) ((resume (opening b) rest).map Piece.fragment) := by
  rw [opening]
  cases known : trail b with
  | some missing => exact cuts_close ⟨b, [], [], rfl, known, .nil⟩ further
  | none =>
    -- No sequence begins with the byte, so none begins where it stands and it is cut off alone.
    have none_ : ∀ s more, s ≠ [] → s <+: b :: rest → ¬ WellFormed (s ++ more) := by
      rintro s more filled ⟨after, whole⟩ wellFormed
      obtain ⟨c, s, rfl⟩ := List.exists_cons_of_ne_nil filled
      obtain rfl : c = b := (List.cons.inj whole).1
      obtain ⟨lead, later, ranges, same, known', -⟩ := wellFormed_iff.1 wellFormed
      obtain rfl : c = lead := (List.cons.inj same).1
      rw [known] at known'
      cases known'
    have cutOff : CutOff [b] rest := by
      refine ⟨fun s before wellFormed => ?_, .inr ⟨rfl, fun s before => ?_⟩⟩
      · exact none_ s [] wellFormed.ne_nil before (by rwa [List.append_nil])
      · rintro ⟨filled, more, -, wellFormed⟩
        exact none_ s more filled before wellFormed
    exact .cut cutOff (further none fun _ no => by cases no)

theorem cuts_segmentFrom (rest : Bytes) : ∀ p, Pending p →
    Cuts ((p.map Partial.read).getD [] ++ rest) ((segmentFrom p rest).map Piece.fragment) := by
  induction rest with
  | nil =>
    intro p pending
    cases p with
    | none => exact .nil
    | some p =>
      obtain ⟨begun, more⟩ := pending p rfl
      obtain ⟨r, missing, next⟩ := List.exists_cons_of_ne_nil more
      exact .cut (begun.cutOff next fun _ no => by cases no) .nil
  | cons b rest ih =>
    intro p pending
    cases p with
    | none =>
      rw [segmentFrom_none_cons]
      exact cuts_opening b ih
    | some p =>
      obtain ⟨begun, more⟩ := pending p rfl
      obtain ⟨r, missing, next⟩ := List.exists_cons_of_ne_nil more
      rw [segmentFrom_some_cons, Partial.add_of_next next b]
      cases fit : r.has b with
      | true =>
        rw [if_pos rfl]
        obtain ⟨lead, later, fitted, read, known, fits⟩ := begun
        have longer : Partial.Begun ⟨p.read ++ [b], missing⟩ := by
          refine ⟨lead, later ++ [b], fitted ++ [r], by rw [read]; rfl, ?_, ?_⟩
          · rw [known, next, List.append_assoc]
            rfl
          · exact List.rel_append fits (.cons fit .nil)
        have onward := cuts_close longer ih
        rw [List.append_assoc] at onward
        exact onward
      | false =>
        rw [if_neg Bool.false_ne_true]
        refine .cut (begun.cutOff next fun c first => ?_) (cuts_opening b ih)
        cases first
        exact fit

/-- The decoders cut every byte string as the table does. -/
theorem cuts_segment (bytes : Bytes) : Cuts bytes ((segment bytes).map Piece.fragment) :=
  cuts_segmentFrom bytes none fun _ no => by cases no

/-- The bytes of a character are a well-formed sequence. -/
theorem wellFormed_encodeChar (c : Char) : WellFormed (String.utf8EncodeChar c) := by
  have cuts := cuts_segment (String.utf8EncodeChar c ++ [])
  rw [segment, segmentFrom_encodeChar, List.map_cons] at cuts
  generalize String.utf8EncodeChar c ++ [] = bytes at cuts
  cases cuts with
  | kept wellFormed _ => exact wellFormed

/-! ## What is kept and what is shown -/

namespace Fragment

/-- The bytes of a fragment that are left when junk is dropped. -/
def dropped : Fragment → Bytes
  | kept bytes => bytes
  | cut _ => []

/-- The bytes of a fragment when junk is replaced, by those of U+FFFD. -/
def replaced : Fragment → Bytes
  | kept bytes => bytes
  | cut _ => [0xef, 0xbf, 0xbd]

end Fragment

/-- Bytes that are well-formed sequences one after the other. -/
def IsValid (bytes : Bytes) : Prop :=
  ∃ sequences : List Bytes, (∀ s ∈ sequences, WellFormed s) ∧ sequences.flatten = bytes

/-- The bytes that are characters of ASCII. -/
def ascii (bytes : Bytes) : Bytes := bytes.filter (· < 0x80)

theorem encode_decodeKept (bytes : Bytes) :
    encode (decodeKept bytes) = ((segment bytes).map Piece.fragment).flatMap Fragment.dropped := by
  rw [decodeKept]
  induction segment bytes with
  | nil => rfl
  | cons piece pieces ih =>
    cases piece with
    | scalar c => exact congrArg (String.utf8EncodeChar c ++ ·) ih
    | junk junk => exact ih

theorem encode_decodeLossy (bytes : Bytes) :
    encode (decodeLossy bytes) = ((segment bytes).map Piece.fragment).flatMap Fragment.replaced := by
  rw [decodeLossy]
  induction segment bytes with
  | nil => rfl
  | cons piece pieces ih =>
    cases piece with
    | scalar c => exact congrArg (String.utf8EncodeChar c ++ ·) ih
    | junk junk =>
      have mark : String.utf8EncodeChar '\ufffd' = [0xef, 0xbf, 0xbd] := by decide
      exact congrArg₂ (· ++ ·) mark ih

theorem IsValid.append (first : IsValid s) (second : IsValid t) : IsValid (s ++ t) := by
  obtain ⟨a, wellFormed, rfl⟩ := first
  obtain ⟨b, wellFormed', rfl⟩ := second
  refine ⟨a ++ b, fun s inside => ?_, List.flatten_append⟩
  exact (List.mem_append.1 inside).elim (wellFormed s) (wellFormed' s)

theorem WellFormed.isValid (wellFormed : WellFormed s) : IsValid s :=
  ⟨[s], fun _ own => List.mem_singleton.1 own ▸ wellFormed, List.append_nil s⟩

/-- Whatever is done with junk, valid bytes are left. -/
theorem Cuts.isValid (cuts : Cuts bytes fragments) :
    IsValid (fragments.flatMap Fragment.dropped) ∧ IsValid (fragments.flatMap Fragment.replaced) := by
  have nothing : IsValid [] := ⟨[], fun _ no => absurd no List.not_mem_nil, rfl⟩
  induction cuts with
  | nil => exact ⟨nothing, nothing⟩
  | kept wellFormed _ ih => exact ⟨wellFormed.isValid.append ih.1, wellFormed.isValid.append ih.2⟩
  | cut _ _ ih =>
    have mark : WellFormed [0xef, 0xbf, 0xbd] := by decide
    exact ⟨ih.1, mark.isValid.append ih.2⟩

/-- Valid bytes are cut into their sequences. -/
theorem cuts_flatten {sequences : List Bytes} (wellFormed : ∀ s ∈ sequences, WellFormed s) :
    Cuts sequences.flatten (sequences.map .kept) := by
  induction sequences with
  | nil => exact .nil
  | cons s sequences ih =>
    exact .kept (wellFormed s List.mem_cons_self) (ih fun t h => wellFormed t (List.mem_cons_of_mem _ h))

theorem isAscii_iff {b : UInt8} : b < 0x80 ↔ trail b = some [] := by
  constructor
  · exact fun small => by rw [trail, if_pos small]
  · intro known
    rcases trail_cases known with ⟨small, -⟩ | ⟨-, -, no⟩ | ⟨-, -, no⟩ | ⟨-, -, no⟩
    · exact UInt8.lt_iff_toNat_lt.2 small
    all_goals cases no

/-- There is no ASCII after the first byte of a sequence. -/
theorem ascii_of_fits {lead : UInt8} {later : Bytes} {ranges : List Range}
    (known : trail lead = some ranges) (fits : Fits ranges later) : ascii later = [] := by
  have continued := continued_trail known
  clear known
  induction fits with
  | nil => rfl
  | @cons r b _ _ fit _ ih =>
    have notSmall : ¬ b < 0x80 := by
      intro small
      have isTrail := trail_of_continuation (continued r List.mem_cons_self b fit)
      rw [isAscii_iff.1 small] at isTrail
      cases isTrail
    rw [ascii, List.filter_cons_of_neg (by simpa using notSmall)]
    exact ih fun r inside => continued r (List.mem_cons_of_mem _ inside)

/-- No character of ASCII is cut off. -/
theorem CutOff.ascii_eq_nil (cutOff : CutOff junk rest) : ascii junk = [] := by
  obtain ⟨lead, later, rfl⟩ := List.exists_cons_of_ne_nil cutOff.ne_nil
  have notSmall : ¬ lead < 0x80 := by
    intro small
    refine cutOff.noSequence [lead] ⟨later ++ rest, rfl⟩ ?_
    exact wellFormed_iff.2 ⟨lead, [], [], rfl, isAscii_iff.1 small, .nil⟩
  rw [ascii, List.filter_cons_of_neg (by simpa using notSmall)]
  rcases cutOff.longest with ⟨⟨-, more, -, wellFormed⟩, -⟩ | ⟨one, -⟩
  · obtain ⟨lead', tail, ranges, same, known, fits⟩ := wellFormed_iff.1 wellFormed
    obtain rfl : later ++ more = tail := (List.cons.inj same).2
    have none := ascii_of_fits known fits
    rw [ascii, List.filter_append] at none
    exact (List.append_eq_nil_iff.1 none).1
  · rw [List.length_cons] at one
    rw [List.length_eq_zero_iff.1 (Nat.succ.inj one)]
    rfl

/-- The characters of ASCII stay, in their order, and no others come. -/
theorem Cuts.ascii_eq (cuts : Cuts bytes fragments) :
    ascii (fragments.flatMap Fragment.dropped) = ascii bytes ∧
      ascii (fragments.flatMap Fragment.replaced) = ascii bytes := by
  induction cuts with
  | nil => exact ⟨rfl, rfl⟩
  | @kept s _ _ _ _ ih =>
    simp only [ascii, List.flatMap_cons, List.filter_append] at ih ⊢
    exact ⟨congrArg (ascii s ++ ·) ih.1, congrArg (ascii s ++ ·) ih.2⟩
  | @cut junk _ _ cutOff _ ih =>
    have none := cutOff.ascii_eq_nil
    simp only [ascii, List.flatMap_cons, List.filter_append] at ih none ⊢
    rw [none]
    exact ih

/-- The decoders cut every byte string in the one way that the table allows: what one of them keeps
are the bytes of the sequences that are kept, and the other one shows U+FFFD for each cut besides. So
valid bytes come through as they are, and ASCII comes through in its order; what is decoded is valid,
and it is decoded piecewise wherever a piece does not begin with a continuation byte. -/
theorem decode_standard (bytes : Bytes) :
    (∃ fragments, (∀ others, Cuts bytes others ↔ others = fragments) ∧
      encode (decodeKept bytes) = fragments.flatMap Fragment.dropped ∧
      encode (decodeLossy bytes) = fragments.flatMap Fragment.replaced) ∧
    (IsValid bytes → encode (decodeKept bytes) = bytes ∧ encode (decodeLossy bytes) = bytes) ∧
    ascii (encode (decodeKept bytes)) = ascii bytes ∧
    ascii (encode (decodeLossy bytes)) = ascii bytes ∧
    IsValid (encode (decodeKept bytes)) ∧ IsValid (encode (decodeLossy bytes)) ∧
    ∀ later : Bytes, (∀ b ∈ later.head?, ¬ (0x80 ≤ b ∧ b ≤ 0xbf)) →
      decodeKept (bytes ++ later) = decodeKept bytes ++ decodeKept later ∧
      decodeLossy (bytes ++ later) = decodeLossy bytes ++ decodeLossy later := by
  have cuts := cuts_segment bytes
  have dropped := encode_decodeKept bytes
  have replaced := encode_decodeLossy bytes
  generalize (segment bytes).map Piece.fragment = fragments at cuts dropped replaced
  refine ⟨⟨fragments, fun others => ⟨fun cuts' => (cuts.unique cuts').symm, fun same => same ▸ cuts⟩,
    dropped, replaced⟩, fun valid => ?_, ?_⟩
  · obtain ⟨sequences, wellFormed, rfl⟩ := valid
    rw [dropped, replaced, cuts.unique (cuts_flatten wellFormed), List.flatMap_map, List.flatMap_map]
    exact ⟨List.flatMap_id', List.flatMap_id'⟩
  · rw [dropped, replaced]
    refine ⟨cuts.ascii_eq.1, cuts.ascii_eq.2, cuts.isValid.1, cuts.isValid.2, fun later begins => ?_⟩
    have fresh : Fresh later := by
      intro b first
      refine Bool.eq_false_iff.2 fun inside => begins b first ?_
      rwa [Range.has, Bool.and_eq_true, decide_eq_true_eq, decide_eq_true_eq] at inside
    exact ⟨decodeKept_append bytes fresh, decodeLossy_append bytes fresh⟩

/-- Two bytes of a sequence of three are cut off before a full stop and kept before the third. -/
theorem decode_standard_unfinished : IsValid [0xe2, 0x82, 0xac] ∧
    encode (decodeLossy [0xe2, 0x82, 0xac]) = [0xe2, 0x82, 0xac] ∧
    decodeLossy ([0xe2, 0x82] ++ [0x2e]) = decodeLossy [0xe2, 0x82] ++ decodeLossy [0x2e] := by
  have valid : IsValid [0xe2, 0x82, 0xac] := WellFormed.isValid (by decide)
  obtain ⟨-, whole, -⟩ := decode_standard [0xe2, 0x82, 0xac]
  obtain ⟨-, -, -, -, -, -, apart⟩ := decode_standard [0xe2, 0x82]
  have fullStop : ∀ b ∈ [(0x2e : UInt8)].head?, ¬ (0x80 ≤ b ∧ b ≤ 0xbf) := by
    rintro b ⟨⟩
    decide
  exact ⟨valid, (whole valid).2, (apart [0x2e] fullStop).2⟩

end DefTally.Text.Utf8
