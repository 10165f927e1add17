import DefTally.Proofs.Json.Escape
import DefTally.Proofs.Output.Blame
import Mathlib.Data.List.TakeWhile

/-!
# Lines that are read back

The line of a value is cut into the tokens of the value (`scan_pieces`), and from the tokens the
value is put together again (`runs_tokens`), both by induction on the value. So the line says what
the value is and nothing else, and a tally is known from its line (`read?_line`).
-/

namespace DefTally.Json

open Reader

/-! ## What a value says -/

namespace Value

mutual

/-- What a value says as a JSON text. -/
def document : Value → Document
  | null => .null
  | bool b => .bool b
  | number n => .number n
  | string s => .string s
  | array items => .array (documents items)
  | object fields => .object (fieldDocuments fields)

/-- What the items of an array say. -/
def documents : List Value → List Document
  | [] => []
  | v :: rest => v.document :: documents rest

/-- What the fields of an object say. -/
def fieldDocuments : List (String × Value) → List (String × Document)
  | [] => []
  | (key, v) :: rest => (key, v.document) :: fieldDocuments rest

end

mutual

/-- The tokens of a value. -/
def tokens : Value → List Token
  | null => [.scalar .null]
  | bool b => [.scalar (.bool b)]
  | number n => [.scalar (.number n)]
  | string s => [.scalar (.string s)]
  | array items => .arrayOpen :: (itemTokens items ++ [.arrayClose])
  | object fields => .objectOpen :: (fieldTokens fields ++ [.objectClose])

/-- The tokens of the items of an array. -/
def itemTokens : List Value → List Token
  | [] => []
  | v :: rest => v.tokens ++ laterItemTokens rest

/-- The tokens of the items of an array after the first. -/
def laterItemTokens : List Value → List Token
  | [] => []
  | v :: rest => .comma :: (v.tokens ++ laterItemTokens rest)

/-- The tokens of the fields of an object. -/
def fieldTokens : List (String × Value) → List Token
  | [] => []
  | (key, v) :: rest => .scalar (.string key) :: .colon :: (v.tokens ++ laterFieldTokens rest)

/-- The tokens of the fields of an object after the first. -/
def laterFieldTokens : List (String × Value) → List Token
  | [] => []
  | (key, v) :: rest =>
    .comma :: .scalar (.string key) :: .colon :: (v.tokens ++ laterFieldTokens rest)

end

end Value

/-! ## Numbers -/

namespace Reader

theorem head?_toDigits {m : Nat} (h : m ≠ 0) : (Nat.toDigits 10 m).head? ≠ some '0' := by
  induction m using Nat.strongRecOn with
  | ind m ih =>
    rw [Nat.toDigits_eq_if (by decide)]
    split
    · next small =>
      have all : ∀ k < 10, k ≠ 0 → [Nat.digitChar k].head? ≠ some '0' := by decide
      exact all m small h
    · next large =>
      have earlier := ih (m / 10) (by omega) (by omega)
      cases digits : Nat.toDigits 10 (m / 10) with
      | nil => exact absurd digits Nat.toDigits_ne_nil
      | cons d ds =>
        rw [digits] at earlier
        simpa using earlier

theorem isDigit_toDigits (m : Nat) : ∀ d ∈ Nat.toDigits 10 m, d.isDigit = true :=
  fun _ inside => Nat.isDigit_of_mem_toDigits (by decide) (by decide) inside

theorem isWhole_toDigits (m : Nat) : isWhole (Nat.toDigits 10 m) = true := by
  by_cases zero : m = 0
  · subst zero
    rfl
  · have leads := head?_toDigits zero
    have allDigits := isDigit_toDigits m
    match digits : Nat.toDigits 10 m with
    | [] => exact absurd digits Nat.toDigits_ne_nil
    | [d] =>
      rw [digits] at allDigits
      exact allDigits d List.mem_cons_self
    | d :: e :: ds =>
      rw [digits] at leads allDigits
      have notZero : d ≠ '0' := by simpa using leads
      have later : (e :: ds).all Char.isDigit = true :=
        List.all_eq_true.2 fun f inside => allDigits f (List.mem_cons_of_mem _ inside)
      rw [isWhole, allDigits d List.mem_cons_self, later, bne_iff_ne.2 notZero]
      · rfl
      · simp

theorem magnitude?_toDigits (m : Nat) : magnitude? (Nat.toDigits 10 m) = some (m : Rat) := by
  have allDigits := isDigit_toDigits m
  have all : (Nat.toDigits 10 m).takeWhile Char.isDigit = Nat.toDigits 10 m :=
    List.takeWhile_eq_self_iff.2 allDigits
  have none : (Nat.toDigits 10 m).dropWhile Char.isDigit = [] :=
    List.dropWhile_eq_nil_iff.2 allDigits
  have value : digitsValue (Nat.toDigits 10 m) = m := Nat.ofDigitChars_ten_toDigits
  simp only [magnitude?, all, none, isWhole_toDigits, fraction?, exponent?, value, if_true,
    Option.bind_some, Option.map_some, Rat.add_zero, Rat.zpow_zero, Rat.mul_one]

/-- A number in decimal is read as that number. -/
theorem number?_decimal (n : Int) : number? (decimal n) = some (n : Rat) := by
  unfold decimal
  split
  · next negative =>
    have value : -((n.natAbs : Nat) : Rat) = (n : Rat) := by
      have whole : n = -(n.natAbs : Int) := by omega
      rw [← Rat.intCast_natCast, ← Rat.intCast_neg, ← whole]
    rw [List.singleton_append, number?, if_pos rfl, magnitude?_toDigits, Option.map_some, value]
  · next positive =>
    have value : ((n.natAbs : Nat) : Rat) = (n : Rat) := by
      have whole : (n.natAbs : Int) = n := by omega
      rw [← Rat.intCast_natCast, whole]
    cases digits : Nat.toDigits 10 n.natAbs with
    | nil => exact absurd digits Nat.toDigits_ne_nil
    | cons d ds =>
      have digit := isDigit_toDigits n.natAbs d (digits ▸ List.mem_cons_self)
      have noSign : d ≠ '-' := by
        rintro rfl
        exact absurd digit (by decide)
      rw [List.nil_append, number?, if_neg noSign, ← digits, magnitude?_toDigits, value]

/-- A number in decimal has digits and a sign only. -/
theorem not_mem_decimal {c : Char} (noDigit : c.isDigit = false) (noSign : c ≠ '-') (n : Int) :
    c ∉ decimal n := by
  intro inside
  unfold decimal at inside
  rcases List.mem_append.1 inside with sign | digit
  · split at sign
    · exact noSign (List.mem_singleton.1 sign)
    · cases sign
  · exact absurd (noDigit.symm.trans (isDigit_toDigits n.natAbs c digit)) (by decide)

theorem decimal_ne_nil (n : Int) : decimal n ≠ [] := by
  have some : Nat.toDigits 10 n.natAbs ≠ [] := Nat.toDigits_ne_nil
  simp [decimal, some]

/-- A number in decimal is not taken for a literal name. -/
theorem bare?_decimal (n : Int) : bare? (decimal n) = some (.number n) := by
  have noName : ∀ c : Char, c.isDigit = false → c ≠ '-' → ∀ w : List Char, c ∈ w → decimal n ≠ w := by
    rintro c noDigit noSign w inside rfl
    exact not_mem_decimal noDigit noSign n inside
  have noNull := noName 'n' rfl (by decide) "null".toList (by decide)
  have noTrue := noName 't' rfl (by decide) "true".toList (by decide)
  have noFalse := noName 'f' rfl (by decide) "false".toList (by decide)
  rw [bare?, if_neg noNull, if_neg noTrue, if_neg noFalse, number?_decimal]
  rfl

/-! ## Cutting into tokens -/

/-- A number or a literal name before the text is complete. -/
def Ends (rest : List Char) : Prop := ∀ c ∈ rest.head?, separates c = true

theorem ends_cons {c : Char} (rest : List Char) (sep : separates c = true) : Ends (c :: rest) := by
  intro d head
  cases head
  exact sep

theorem scan_mark {c : Char} {t : Token} (mark : mark? c = some t) (rest : List Char) :
    scan .between (c :: rest) = (scan .between rest).map (t :: ·) := by
  have begins : read .between c = some ([t], .between) := by simp [read, begin, mark]
  rw [scan, begins]
  rfl

theorem scan_space (rest : List Char) : scan .between (' ' :: rest) = scan .between rest :=
  scan_silent rfl rest

theorem scan_inside {v : List Char} (inside : ∀ c ∈ v, separates c = false) (w rest : List Char) :
    scan (.bare w) (v ++ rest) = scan (.bare (w ++ v)) rest := by
  induction v generalizing w with
  | nil => simp
  | cons c v ih =>
    have goesOn : read (.bare w) c = some ([], .bare (w ++ [c])) := by
      simp [read, inside c List.mem_cons_self]
    rw [List.cons_append, scan_silent goesOn,
      ih (fun d later => inside d (List.mem_cons_of_mem _ later)), List.append_assoc]
    rfl

theorem scan_atEnd {w rest : List Char} {d : Document} (known : bare? w = some d) (ends : Ends rest) :
    scan (.bare w) rest = (scan .between rest).map (.scalar d :: ·) := by
  cases rest with
  | nil => simp [scan, finish, known]
  | cons c rest =>
    have sep : separates c = true := ends c rfl
    simp [scan, read, sep, known, Function.comp_def]

/-- A scalar without quotes is read as it was written, where it ends. -/
theorem scan_bare {w rest : List Char} {d : Document} (known : bare? w = some d) (some : w ≠ [])
    (inside : w.all (!separates ·) = true) (ends : Ends rest) :
    scan .between (w ++ rest) = (scan .between rest).map (.scalar d :: ·) := by
  have inside : ∀ c ∈ w, separates c = false := by simpa using inside
  cases w with
  | nil => exact absurd rfl some
  | cons c w =>
    have noSep := inside c List.mem_cons_self
    simp only [separates, Bool.or_eq_false_iff, Option.isSome_eq_false_iff, Option.isNone_iff_eq_none,
      beq_eq_false_iff_ne] at noSep
    obtain ⟨⟨noSpace, noMark⟩, noQuote⟩ := noSep
    have begins : read .between c = Option.some ([], .bare [c]) := by
      simp [read, begin, noMark, noSpace, noQuote]
    rw [List.cons_append, scan_silent begins,
      scan_inside (fun d later => inside d (List.mem_cons_of_mem _ later)), List.singleton_append,
      scan_atEnd known ends]

/-- The characters of a number in decimal do not separate. -/
theorem not_separates_decimal {n : Int} {c : Char} (inside : c ∈ decimal n) : separates c = false := by
  have other : ∀ d : Char, d.isDigit = false → d ≠ '-' → c ≠ d := by
    rintro d noDigit noSign rfl
    exact not_mem_decimal noDigit noSign n inside
  have noSpace : isSpace c = false := by
    simp [isSpace, other ' ' rfl (by decide), other '\t' rfl (by decide), other '\n' rfl (by decide),
      other '\r' rfl (by decide)]
  have noMark : mark? c = none := by
    simp [mark?, other '[' rfl (by decide), other ']' rfl (by decide), other '\x7b' rfl (by decide),
      other '\x7d' rfl (by decide), other ',' rfl (by decide), other ':' rfl (by decide)]
  have noQuote : c ≠ '"' := other '"' rfl (by decide)
  simp [separates, noSpace, noMark, noQuote]

end Reader

/-! ## The tokens of a line -/

theorem ends_laterItemPieces (items : List Value) {rest : List Char} (ends : Ends rest) :
    Ends ((Value.laterItemPieces items).flatten ++ rest) := by
  cases items with
  | nil => exact ends
  | cons v items => exact ends_cons _ rfl

theorem ends_laterFieldPieces (fields : List (String × Value)) {rest : List Char}
    (ends : Ends rest) : Ends ((Value.laterFieldPieces fields).flatten ++ rest) := by
  cases fields with
  | nil => exact ends
  | cons field fields => exact ends_cons _ rfl

theorem scan_separator (rest : List Char) :
    scan .between (separator ++ rest) = (scan .between rest).map (.comma :: ·) :=
  (scan_mark (t := .comma) rfl _).trans (congrArg _ (scan_space rest))

theorem scan_keySeparator (rest : List Char) :
    scan .between (keySeparator ++ rest) = (scan .between rest).map (.colon :: ·) :=
  (scan_mark (t := .colon) rfl _).trans (congrArg _ (scan_space rest))

mutual

/-- The line of a value is cut into the tokens of the value, wherever the value ends. -/
theorem scan_pieces : ∀ (v : Value) (rest : List Char), Ends rest →
    scan .between (v.pieces.flatten ++ rest) = (scan .between rest).map (v.tokens ++ ·)
  | .null, rest, ends => by
    rw [Value.pieces, List.flatten_singleton]
    exact scan_bare rfl (by decide) rfl ends
  | .bool true, rest, ends => by
    rw [Value.pieces, List.flatten_singleton]
    exact scan_bare rfl (by decide) rfl ends
  | .bool false, rest, ends => by
    rw [Value.pieces, List.flatten_singleton]
    exact scan_bare rfl (by decide) rfl ends
  | .number n, rest, ends => by
    rw [Value.pieces, List.flatten_singleton]
    have inside : (decimal n).all (!separates ·) = true :=
      List.all_eq_true.2 fun c h => by rw [not_separates_decimal h]; rfl
    exact scan_bare (bare?_decimal n) (decimal_ne_nil n) inside ends
  | .string s, rest, _ => scan_string s rest
  | .array items, rest, _ => by
    have pieces : (Value.array items).pieces.flatten ++ rest =
        '[' :: ((Value.itemPieces items).flatten ++ ']' :: rest) := by
      simp [Value.pieces]
    rw [pieces, scan_mark (t := .arrayOpen) rfl, scan_itemPieces items _ (ends_cons _ rfl),
      scan_mark (t := .arrayClose) rfl, Option.map_map, Option.map_map]
    simp [Value.tokens, Function.comp_def]
  | .object fields, rest, _ => by
    have pieces : (Value.object fields).pieces.flatten ++ rest =
        '\x7b' :: ((Value.fieldPieces fields).flatten ++ '\x7d' :: rest) := by
      simp [Value.pieces]
    rw [pieces, scan_mark (t := .objectOpen) rfl, scan_fieldPieces fields _ (ends_cons _ rfl),
      scan_mark (t := .objectClose) rfl, Option.map_map, Option.map_map]
    simp [Value.tokens, Function.comp_def]

theorem scan_itemPieces : ∀ (items : List Value) (rest : List Char), Ends rest →
    scan .between ((Value.itemPieces items).flatten ++ rest) =
      (scan .between rest).map (Value.itemTokens items ++ ·)
  | [], rest, _ => by simp [Value.itemPieces, Value.itemTokens]
  | v :: items, rest, ends => by
    rw [Value.itemPieces, List.flatten_append, List.append_assoc,
      scan_pieces v _ (ends_laterItemPieces items ends), scan_laterItemPieces items rest ends,
      Option.map_map]
    simp [Value.itemTokens, Function.comp_def]

theorem scan_laterItemPieces : ∀ (items : List Value) (rest : List Char), Ends rest →
    scan .between ((Value.laterItemPieces items).flatten ++ rest) =
      (scan .between rest).map (Value.laterItemTokens items ++ ·)
  | [], rest, _ => by simp [Value.laterItemPieces, Value.laterItemTokens]
  | v :: items, rest, ends => by
    have pieces : (Value.laterItemPieces (v :: items)).flatten ++ rest =
        separator ++ (v.pieces.flatten ++ ((Value.laterItemPieces items).flatten ++ rest)) := by
      simp [Value.laterItemPieces]
    rw [pieces, scan_separator, scan_pieces v _ (ends_laterItemPieces items ends),
      scan_laterItemPieces items rest ends, Option.map_map, Option.map_map]
    simp [Value.laterItemTokens, Function.comp_def]

theorem scan_fieldPieces : ∀ (fields : List (String × Value)) (rest : List Char), Ends rest →
    scan .between ((Value.fieldPieces fields).flatten ++ rest) =
      (scan .between rest).map (Value.fieldTokens fields ++ ·)
  | [], rest, _ => by simp [Value.fieldPieces, Value.fieldTokens]
  | (key, v) :: fields, rest, ends => by
    have pieces : (Value.fieldPieces ((key, v) :: fields)).flatten ++ rest =
        (stringPieces key).flatten ++ (keySeparator ++
          (v.pieces.flatten ++ ((Value.laterFieldPieces fields).flatten ++ rest))) := by
      simp [Value.fieldPieces]
    rw [pieces, scan_string, scan_keySeparator, scan_pieces v _ (ends_laterFieldPieces fields ends),
      scan_laterFieldPieces fields rest ends, Option.map_map, Option.map_map, Option.map_map]
    simp [Value.fieldTokens, Function.comp_def]

theorem scan_laterFieldPieces : ∀ (fields : List (String × Value)) (rest : List Char), Ends rest →
    scan .between ((Value.laterFieldPieces fields).flatten ++ rest) =
      (scan .between rest).map (Value.laterFieldTokens fields ++ ·)
  | [], rest, _ => by simp [Value.laterFieldPieces, Value.laterFieldTokens]
  | (key, v) :: fields, rest, ends => by
    have pieces : (Value.laterFieldPieces ((key, v) :: fields)).flatten ++ rest =
        separator ++ ((stringPieces key).flatten ++ (keySeparator ++
          (v.pieces.flatten ++ ((Value.laterFieldPieces fields).flatten ++ rest)))) := by
      simp [Value.laterFieldPieces]
    rw [pieces, scan_separator, scan_string, scan_keySeparator,
      scan_pieces v _ (ends_laterFieldPieces fields ends), scan_laterFieldPieces fields rest ends,
      Option.map_map, Option.map_map, Option.map_map, Option.map_map]
    simp [Value.laterFieldTokens, Function.comp_def]

end

/-! ## The value of the tokens -/

/-- The first token of a value begins a value, also as the first item of an array. -/
theorem tokens_eq_cons (v : Value) : ∃ t ts, v.tokens = t :: ts ∧
    ∀ outer, step (.firstItem outer) t = step (.value (.array [] :: outer)) t := by
  cases v <;> exact ⟨_, _, by rw [Value.tokens], fun _ => rfl⟩

theorem runs_firstItem (v : Value) (outer : List Frame) (ts : List Token) :
    runs (.firstItem outer) (v.tokens ++ ts) =
      runs (.value (.array [] :: outer)) (v.tokens ++ ts) := by
  obtain ⟨t, more, tokens, same⟩ := tokens_eq_cons v
  rw [tokens, List.cons_append, runs, runs, same]

theorem runs_cons {s s' : State} {t : Token} (steps : step s t = some s') (ts : List Token) :
    runs s (t :: ts) = runs s' ts := by
  rw [runs, steps, Option.bind_some]

mutual

/-- From the tokens of a value the value is put together, whatever is open around it. -/
theorem runs_tokens : ∀ (v : Value) (outer : List Frame) (ts : List Token),
    runs (.value outer) (v.tokens ++ ts) = runs (put v.document outer) ts
  | .null, _, _ => by rw [Value.tokens, Value.document]; exact runs_cons rfl _
  | .bool _, _, _ => by rw [Value.tokens, Value.document]; exact runs_cons rfl _
  | .number _, _, _ => by rw [Value.tokens, Value.document]; exact runs_cons rfl _
  | .string _, _, _ => by rw [Value.tokens, Value.document]; exact runs_cons rfl _
  | .array items, outer, ts => by
    rw [Value.tokens, Value.document, List.cons_append, List.append_assoc, runs_cons rfl]
    cases items with
    | nil => exact runs_cons rfl ts
    | cons v items =>
      rw [Value.itemTokens, List.append_assoc, runs_firstItem, runs_tokens v, put,
        List.nil_append, List.singleton_append, runs_laterItemTokens items]
      rfl
  | .object fields, outer, ts => by
    rw [Value.tokens, Value.document, List.cons_append, List.append_assoc, runs_cons rfl]
    cases fields with
    | nil => exact runs_cons rfl ts
    | cons field fields =>
      obtain ⟨key, v⟩ := field
      rw [Value.fieldTokens, List.cons_append, List.cons_append, runs_cons rfl, runs_cons rfl,
        List.append_assoc, runs_tokens v, put, List.nil_append, List.singleton_append,
        runs_laterFieldTokens fields]
      rfl

theorem runs_laterItemTokens : ∀ (items : List Value) (read : List Document) (outer : List Frame)
    (ts : List Token), runs (.afterItem read outer)
      (Value.laterItemTokens items ++ .arrayClose :: ts) =
        runs (put (.array (read ++ Value.documents items)) outer) ts
  | [], before, outer, ts => by
    rw [Value.laterItemTokens, Value.documents, List.append_nil]
    exact runs_cons rfl ts
  | v :: items, before, outer, ts => by
    rw [Value.laterItemTokens, Value.documents, List.cons_append, runs_cons rfl, List.append_assoc,
      runs_tokens v, put, runs_laterItemTokens items, List.append_assoc]
    rfl

theorem runs_laterFieldTokens : ∀ (fields : List (String × Value))
    (read : List (String × Document)) (outer : List Frame) (ts : List Token),
    runs (.afterField read outer) (Value.laterFieldTokens fields ++ .objectClose :: ts) =
      runs (put (.object (read ++ Value.fieldDocuments fields)) outer) ts
  | [], before, outer, ts => by
    rw [Value.laterFieldTokens, Value.fieldDocuments, List.append_nil]
    exact runs_cons rfl ts
  | (key, v) :: fields, before, outer, ts => by
    rw [Value.laterFieldTokens, Value.fieldDocuments, List.cons_append, List.cons_append,
      List.cons_append, runs_cons rfl, runs_cons rfl, runs_cons rfl, List.append_assoc,
      runs_tokens v, put, runs_laterFieldTokens fields, List.append_assoc]
    rfl

end

/-- The line of a value says what the value is. -/
theorem read?_document (v : Value) : read? v.line = some v.document := by
  have tokens := scan_pieces v [] (fun _ no => by cases no)
  have value := runs_tokens v [] []
  simp only [List.append_nil] at tokens value
  rw [read?, Value.line, String.toList_ofList, tokens, scan, finish, Option.map_some,
    Option.bind_some, List.append_nil, value?, value]
  rfl

/-! ## Values told apart -/

mutual

/-- A value is known from what it says. -/
theorem eq_of_document : ∀ v w : Value, v.document = w.document → v = w
  | .null, w, same => by cases w <;> simp_all [Value.document]
  | .bool _, w, same => by cases w <;> simp_all [Value.document]
  | .number _, w, same => by cases w <;> simp_all [Value.document]
  | .string _, w, same => by cases w <;> simp_all [Value.document]
  | .array items, w, same => by
    cases w with
    | array others =>
      rw [Value.document, Value.document, Document.array.injEq] at same
      rw [eq_of_documents items others same]
    | _ => simp [Value.document] at same
  | .object fields, w, same => by
    cases w with
    | object others =>
      rw [Value.document, Value.document, Document.object.injEq] at same
      rw [eq_of_fieldDocuments fields others same]
    | _ => simp [Value.document] at same

theorem eq_of_documents : ∀ v w : List Value, Value.documents v = Value.documents w → v = w
  | [], w, same => by cases w <;> simp_all [Value.documents]
  | v :: items, w, same => by
    cases w with
    | nil => simp [Value.documents] at same
    | cons w others =>
      rw [Value.documents, Value.documents, List.cons.injEq] at same
      rw [eq_of_document v w same.1, eq_of_documents items others same.2]

theorem eq_of_fieldDocuments : ∀ v w : List (String × Value),
    Value.fieldDocuments v = Value.fieldDocuments w → v = w
  | [], w, same => by
    cases w with
    | nil => rfl
    | cons field others => simp [Value.fieldDocuments] at same
  | (key, v) :: fields, w, same => by
    cases w with
    | nil => simp [Value.fieldDocuments] at same
    | cons field others =>
      obtain ⟨other, w⟩ := field
      rw [Value.fieldDocuments, Value.fieldDocuments, List.cons.injEq, Prod.mk.injEq] at same
      rw [same.1.1, eq_of_document v w same.1.2, eq_of_fieldDocuments fields others same.2]

end

/-- What a tally says: its entries, in their order. -/
theorem document_toValue (t : Tally) :
    t.toValue.document = .object (t.toList.map fun (key, n) => (key, .number n)) := by
  have all : ∀ entries : List (String × Nat),
      Value.fieldDocuments (entries.map fun (key, n) => (key, .number n)) =
        entries.map fun (key, n) => (key, .number n) := by
    intro entries
    induction entries with
    | nil => rfl
    | cons entry rest ih =>
      simp only [List.map_cons, Value.fieldDocuments, Value.document, Rat.intCast_natCast, ih]
  rw [Tally.toValue, Value.document, all]

/-- Every value has a line, and all of it is read as that value again; so no other value has that
line. The line of a tally is read as its keys with their counts, and no other tally has it. -/
theorem read?_line :
    (∀ v : Value, Output.render v = .ok v.line ∧ read? v.line = some v.document) ∧
    Function.Injective Value.document ∧ Function.Injective Value.line ∧
    (∀ t : Tally, read? t.toValue.line =
      some (.object (t.toList.map fun (key, n) => (key, .number n)))) ∧
    Function.Injective fun t : Tally => t.toValue.line := by
  have known : Function.Injective Value.line := by
    intro v w same
    have documents : some v.document = some w.document := by
      rw [← read?_document, same, read?_document]
    exact eq_of_document v w (Option.some.inj documents)
  refine ⟨fun v => ⟨Output.render_eq v, read?_document v⟩, eq_of_document, known, fun t => ?_, ?_⟩
  · rw [read?_document, document_toValue]
  · intro t u same
    have fields := known same
    rw [Tally.toValue, Tally.toValue, Value.object.injEq] at fields
    have entries : t.toList = u.toList := by
      refine (List.map_inj_right ?_).1 fields
      rintro ⟨key, n⟩ ⟨other, m⟩ alike
      rw [Prod.mk.injEq, Value.number.injEq, Int.natCast_inj] at alike
      rw [alike.1, alike.2]
    cases t
    cases u
    cases entries
    rfl

end DefTally.Json
