import DefTally.Json.Escape
import DefTally.Proofs.Json.Reader

/-!
# Strings as they are written and read

A string is written in fragments between the characters that end them, and the fragments in slices
between the characters that are escaped there; all in all it is written character by character
(`flatten_textPieces`). What is written is read back: `scan_string` finds the end of the string, and
`unescape?_escape` its text.
-/

namespace DefTally.Json

open DefTally.Text

/-! ## Fragments -/

/-- A fragment as it is written, character by character. -/
def escapeFragment (fragment : List Char) : List Char :=
  fragment.flatMap fun c => if passesThrough c then [c] else (units c).flatMap unitEscape

/-- From a position on, a fragment is written with what passed through since the last escape. -/
theorem flatten_fragmentFrom (before pending rest : List Char) :
    (fragmentFrom (before ++ (pending ++ rest)) (utf8Length before) (utf8Length (before ++ pending))
      rest).flatten = pending ++ escapeFragment rest := by
  induction rest generalizing before pending with
  | nil =>
    rw [fragmentFrom, List.append_nil, dropBytes?_utf8Length]
    simp [escapeFragment]
  | cons c rest ih =>
    have next : utf8Length (before ++ pending) + c.utf8Size = utf8Length (before ++ pending ++ [c]) := by
      simp [utf8Length_append, utf8Length, Nat.add_assoc]
    simp only [fragmentFrom, next]
    split
    · next passes =>
      have later := ih before (pending ++ [c])
      rw [List.append_assoc pending, List.singleton_append] at later
      rw [List.append_assoc before, later]
      simp [escapeFragment, passes]
    · next escaped =>
      have later := ih (before ++ pending ++ [c]) []
      simp only [List.append_nil, List.nil_append, List.append_assoc, List.singleton_append] at later
      rw [slice?_append]
      simp only [List.append_assoc, List.flatten_append, List.flatten_cons, later]
      simp [escapeFragment, escaped, List.flatMap]

theorem flatten_fragmentPieces (fragment : List Char) :
    (fragmentPieces fragment).flatten = escapeFragment fragment := by
  have whole := flatten_fragmentFrom [] [] fragment
  simpa [fragmentPieces, utf8Length] using whole

theorem escapeFragment_cons (c : Char) (rest : List Char) : escapeFragment (c :: rest) =
    (if passesThrough c then [c] else (units c).flatMap unitEscape) ++ escapeFragment rest := by
  rw [escapeFragment, List.flatMap_cons]
  rfl

theorem escape_cons (c : Char) (rest : List Char) :
    escape (c :: rest) = (if isPlain c then [c] else escapeOf c) ++ escape rest := by
  rw [escape, List.flatMap_cons]
  rfl

/-- A character that ends no fragment is written as in a fragment. -/
theorem escape_of_not_endsFragment {c : Char} (inside : endsFragment c = false) :
    (if isPlain c then [c] else escapeOf c) =
      if passesThrough c then [c] else (units c).flatMap unitEscape := by
  simp only [endsFragment, Bool.or_eq_false_iff, decide_eq_false_iff_not] at inside
  obtain ⟨⟨noQuote, noBackslash⟩, high⟩ := inside
  have noControl : ∀ d : Char, d.toNat < 0x20 → c ≠ d := by
    rintro d low rfl
    exact high low
  have noShort : shortEscape? c = none := by
    simp [shortEscape?, noQuote, noBackslash, noControl '\x08' (by decide), noControl '\x0c' (by decide),
      noControl '\n' (by decide), noControl '\r' (by decide), noControl '\t' (by decide)]
  have wide : 0x20 ≤ c.toNat := by omega
  have same : isPlain c = passesThrough c := by
    rw [isPlain, decide_eq_true wide, bne_iff_ne.2 noQuote, bne_iff_ne.2 noBackslash]
    simp [passesThrough]
  rw [same, escapeOf, noShort]

/-- A text is written character by character. -/
theorem flatten_textPieces (text : List Char) : (textPieces text).flatten = escape text := by
  induction text with
  | nil => rfl
  | cons c rest ih =>
    rcases cut : fragments rest with ⟨first, later⟩
    simp only [textPieces, cut, List.flatten_append, flatten_fragmentPieces] at ih
    rw [escape_cons, ← ih]
    simp only [textPieces, fragments, cut]
    split
    · next ends =>
      have notPlain : isPlain c = false := by
        simp only [endsFragment, Bool.or_eq_true, decide_eq_true_eq] at ends
        rcases ends with (rfl | rfl) | low
        · rfl
        · rfl
        · have narrow : ¬0x20 ≤ c.toNat := by omega
          simp [isPlain, narrow]
      simp [notPlain, flatten_fragmentPieces, escapeFragment]
    · next inside =>
      rw [escape_of_not_endsFragment (Bool.not_eq_true _ ▸ inside)]
      simp [flatten_fragmentPieces, escapeFragment_cons]

/-! ## The end of a string -/

namespace Reader

variable {m m' : Mode} {c : Char} {w rest : List Char}

theorem scan_silent (silent : read m c = some ([], m')) (rest : List Char) :
    scan m (c :: rest) = scan m' rest := by
  rw [scan, silent]
  simp

/-- What is neither a quote nor a backslash belongs to the string. -/
theorem scan_quoted (noQuote : c ≠ '"') (noBackslash : c ≠ '\\') (w rest : List Char) :
    scan (.quoted w) (c :: rest) = scan (.quoted (w ++ [c])) rest := by
  apply scan_silent
  simp [read, noQuote, noBackslash]

/-- What comes after a backslash belongs to the string. -/
theorem scan_escaped (c : Char) (w rest : List Char) :
    scan (.quoted w) ('\\' :: c :: rest) = scan (.quoted (w ++ ['\\', c])) rest := by
  have first : read (.quoted w) '\\' = some ([], .escaped w) := by simp [read]
  rw [scan_silent first]
  exact scan_silent rfl rest

theorem hexDigit_plain (n : Nat) : hexDigit n ≠ '"' ∧ hexDigit n ≠ '\\' := by
  have all : ∀ k < 16, Nat.digitChar k ≠ '"' ∧ Nat.digitChar k ≠ '\\' := by decide
  exact all (n % 16) (Nat.mod_lt _ (by decide))

theorem scan_hexDigit (n : Nat) (w rest : List Char) :
    scan (.quoted w) (hexDigit n :: rest) = scan (.quoted (w ++ [hexDigit n])) rest :=
  scan_quoted (hexDigit_plain n).1 (hexDigit_plain n).2 w rest

theorem scan_unitEscape (u : Nat) (w rest : List Char) :
    scan (.quoted w) (unitEscape u ++ rest) = scan (.quoted (w ++ unitEscape u)) rest := by
  simp only [unitEscape, List.cons_append, List.nil_append]
  rw [scan_escaped, scan_hexDigit, scan_hexDigit, scan_hexDigit, scan_hexDigit]
  simp

theorem scan_units (us : List Nat) (w rest : List Char) :
    scan (.quoted w) (us.flatMap unitEscape ++ rest) =
      scan (.quoted (w ++ us.flatMap unitEscape)) rest := by
  induction us generalizing w with
  | nil => simp
  | cons u us ih => rw [List.flatMap_cons, List.append_assoc, scan_unitEscape, ih, List.append_assoc]

theorem scan_escapeOf (c : Char) (w rest : List Char) :
    scan (.quoted w) (escapeOf c ++ rest) = scan (.quoted (w ++ escapeOf c)) rest := by
  unfold escapeOf
  split
  · exact scan_escaped _ w rest
  · exact scan_units _ w rest

/-- A text as it is written does not end the string that it is in. -/
theorem scan_escape (text w rest : List Char) :
    scan (.quoted w) (escape text ++ rest) = scan (.quoted (w ++ escape text)) rest := by
  induction text generalizing w with
  | nil => simp [escape]
  | cons c text ih =>
    rw [escape_cons, List.append_assoc]
    split
    · next plain =>
      simp only [isPlain, Bool.and_eq_true, bne_iff_ne] at plain
      rw [List.singleton_append, scan_quoted plain.1.2 plain.2, ih]
      simp
    · rw [scan_escapeOf, ih, List.append_assoc]

/-! ## The text of a string -/

theorem hexValue?_hexDigit (n : Nat) : hexValue? (hexDigit n) = some (n % 16) := by
  have all : ∀ k < 16, hexValue? (Nat.digitChar k) = some k := by decide
  exact all (n % 16) (Nat.mod_lt _ (by decide))

theorem parts?_unitEscape {u : Nat} (fits : u < 0x10000) (rest : List Char) :
    parts? (unitEscape u ++ rest) = (parts? rest).map (.unit u :: ·) := by
  have value : (((u / 4096) % 16 * 16 + (u / 256) % 16) * 16 + (u / 16) % 16) * 16 + u % 16 = u := by
    omega
  have digits : unit? (hexDigit (u / 4096)) (hexDigit (u / 256)) (hexDigit (u / 16)) (hexDigit u) =
      some u := by
    simp only [unit?, hexValue?_hexDigit, value]
  simp only [unitEscape, List.cons_append, List.nil_append, parts?, digits, Option.bind_some]

theorem parts?_units {us : List Nat} (fit : ∀ u ∈ us, u < 0x10000) (rest : List Char) :
    parts? (us.flatMap unitEscape ++ rest) = (parts? rest).map (us.map .unit ++ ·) := by
  induction us with
  | nil => simp
  | cons u us ih =>
    rw [List.flatMap_cons, List.append_assoc, parts?_unitEscape (fit u List.mem_cons_self),
      ih fun v inside => fit v (List.mem_cons_of_mem _ inside), Option.map_map]
    rfl

theorem parts?_plain (plain : isPlain c = true) (rest : List Char) :
    parts? (c :: rest) = (parts? rest).map (.char c :: ·) := by
  simp only [isPlain, Bool.and_eq_true, decide_eq_true_eq, bne_iff_ne] at plain
  obtain ⟨⟨⟨wide, -⟩, noQuote⟩, noBackslash⟩ := plain
  have narrow : ¬c.toNat < 0x20 := by omega
  rw [parts?]
  · simp [narrow, noQuote, noBackslash]
  all_goals
    intros
    exact noBackslash ‹_›

theorem parts?_short {letter : Char} (short : shortEscape? c = some letter) (rest : List Char) :
    parts? ('\\' :: letter :: rest) = (parts? rest).map (.char c :: ·) := by
  have means : letter ≠ 'u' ∧ meaning? letter = some c := by
    unfold shortEscape? at short
    repeat' split at short
    all_goals cases short <;> subst ‹c = _› <;> decide
  rw [parts?]
  · rw [means.2]
    rfl
  · intros
    exact means.1 ‹_›

/-- What is read of a character as it is written. -/
def partsOf (c : Char) : List Part :=
  if isPlain c || (shortEscape? c).isSome then [.char c] else (units c).map .unit

theorem units_fit (c : Char) : ∀ u ∈ units c, u < 0x10000 := by
  have valid : c.toNat < 0xd800 ∨ 0xdfff < c.toNat ∧ c.toNat < 0x110000 := c.valid
  unfold units
  split
  · simpa using ‹_›
  · intro u inside
    simp only [List.mem_cons, List.not_mem_nil, or_false] at inside
    omega

theorem parts?_written (c : Char) (rest : List Char) :
    parts? ((if isPlain c then [c] else escapeOf c) ++ rest) =
      (parts? rest).map (partsOf c ++ ·) := by
  unfold partsOf
  cases plain : isPlain c with
  | true => exact parts?_plain plain rest
  | false =>
    cases short : shortEscape? c with
    | some letter =>
      simp only [escapeOf, short]
      exact parts?_short short rest
    | none =>
      simp only [escapeOf, short]
      exact parts?_units (units_fit c) rest

theorem join?_unit {u : Nat} (notHigh : isHigh u = false) (notLow : isLow u = false)
    (rest : List Part) : join? (.unit u :: rest) = (join? rest).map (Char.ofNat u :: ·) := by
  cases rest with
  | nil => simp [join?, notHigh, notLow]
  | cons part rest => cases part <;> simp [join?, notHigh, notLow]

/-- The units of a character are joined to the character. -/
theorem join?_units (c : Char) (rest : List Part) :
    join? ((units c).map .unit ++ rest) = (join? rest).map (c :: ·) := by
  have valid : c.toNat < 0xd800 ∨ 0xdfff < c.toNat ∧ c.toNat < 0x110000 := c.valid
  unfold units
  split
  · next basic =>
    have notHigh : isHigh c.toNat = false := by
      simp [isHigh]
      omega
    have notLow : isLow c.toNat = false := by
      simp [isLow]
      omega
    have single := join?_unit notHigh notLow rest
    rw [Char.ofNat_toNat] at single
    exact single
  · next beyond =>
    have high : isHigh (0xd800 + (c.toNat - 0x10000) / 0x400) = true := by
      simp [isHigh]
      omega
    have low : isLow (0xdc00 + (c.toNat - 0x10000) % 0x400) = true := by
      simp [isLow]
      omega
    have same : joined (0xd800 + (c.toNat - 0x10000) / 0x400) (0xdc00 + (c.toNat - 0x10000) % 0x400) =
        c := by
      have value : 0x10000 + (0xd800 + (c.toNat - 0x10000) / 0x400 - 0xd800) * 0x400 +
          (0xdc00 + (c.toNat - 0x10000) % 0x400 - 0xdc00) = c.toNat := by omega
      rw [joined, value, Char.ofNat_toNat]
    simp [join?, high, low, same]

theorem join?_partsOf (c : Char) (rest : List Part) :
    join? (partsOf c ++ rest) = (join? rest).map (c :: ·) := by
  unfold partsOf
  split
  · rfl
  · exact join?_units c rest

/-- The text of a string is read as it was written. -/
theorem unescape?_escape (text : List Char) : unescape? (escape text) = some text := by
  have parts : parts? (escape text) = some (text.flatMap partsOf) := by
    induction text with
    | nil => rfl
    | cons c rest ih =>
      rw [escape_cons, parts?_written, ih]
      rfl
  have joins : join? (text.flatMap partsOf) = some text := by
    clear parts
    induction text with
    | nil => rfl
    | cons c rest ih =>
      rw [List.flatMap_cons, join?_partsOf, ih]
      rfl
  rw [unescape?, parts, Option.bind_some, joins]

/-- A string is read as it was written, wherever it stands. -/
theorem scan_string (s : String) (rest : List Char) :
    scan .between ((stringPieces s).flatten ++ rest) =
      (scan .between rest).map (.scalar (.string s) :: ·) := by
  have pieces : (stringPieces s).flatten ++ rest = '"' :: (escape s.toList ++ '"' :: rest) := by
    simp [stringPieces, flatten_textPieces]
  have opens : read .between '"' = some ([], .quoted []) := rfl
  rw [pieces, scan_silent opens, scan_escape, scan, read]
  simp [unescape?_escape]

end Reader

end DefTally.Json
