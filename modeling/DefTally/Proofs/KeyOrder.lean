import DefTally.Proofs.DistinctKeys
import DefTally.Proofs.Output.Blame
import DefTally.Proofs.Text.Order

/-!
# Dictionaries are canonical

A dictionary is nothing but its mapping (`eq_of_get?`). So of the entries that are put into one only the
last of each key is left (`ofList_eq_ofList_iff`): neither the order in which the keys came nor how often
they came can be told from it, from the entries that it lists or from the line of a tally
(`Tally.ofList_canonical`). It lists its keys in the order of their bytes, which is that of their
characters.
-/

namespace DefTally

open DefTally.Json DefTally.Output DefTally.Text

namespace Dictionary

variable {α : Type}

/-- The last of some entries with a key has a value. -/
def LastOf (entries : List (String × α)) (key : String) (value : α) : Prop :=
  ∃ before after, entries = before ++ (key, value) :: after ∧ ∀ e ∈ after, e.1 ≠ key

theorem get?_ofList_eq_none_iff {entries : List (String × α)} {key : String} :
    (ofList entries).get? key = none ↔ key ∉ entries.map Prod.fst := by
  rw [← mem_keys_ofList, ← not_iff_not, not_not, ← Ne, Option.ne_none_iff_exists']
  constructor
  · rintro ⟨value, found⟩
    exact List.mem_map.2 ⟨_, mem_toList_iff.2 found, rfl⟩
  · intro listed
    obtain ⟨⟨_, value⟩, inside, rfl⟩ := List.mem_map.1 listed
    exact ⟨value, mem_toList_iff.1 inside⟩

/-- Dictionaries that map all keys alike are the same. -/
theorem eq_of_get? {d e : Dictionary α} (same : ∀ key, d.get? key = e.get? key) : d = e := by
  have members : d.toList.Perm e.toList := by
    refine (List.perm_ext_iff_of_nodup (keys_nodup d).of_map (keys_nodup e).of_map).2 fun entry => ?_
    rw [mem_toList_iff, mem_toList_iff, same]
  have entries : d.toList = e.toList :=
    members.eq_of_pairwise (fun a b _ _ less more => absurd more (String.lt_asymm less))
      d.ascending e.ascending
  cases d
  cases e
  cases entries
  rfl

/-- Which entries were put into a dictionary is known as far as the last entry of each key. -/
theorem ofList_eq_ofList_iff {entries other : List (String × α)} :
    ofList entries = ofList other ↔
      ∀ key value, LastOf entries key value ↔ LastOf other key value := by
  simp only [LastOf, ← get?_ofList_eq_some_iff]
  constructor
  · intro same key value
    rw [same]
  · exact fun same => eq_of_get? fun key => Option.ext fun value => same key value

/-- The keys of a dictionary stand in the order of their UTF-8 bytes. -/
theorem bytes_ascend (d : Dictionary α) : (d.toList.map Prod.fst).Pairwise fun a b =>
    List.Lex (· < ·) (Utf8.encode a.toList) (Utf8.encode b.toList) :=
  List.pairwise_map.2 (d.ascending.imp fun less => Utf8.lex_encode_iff.2 (String.lt_iff.1 less))

/-- The keys of a dictionary stand in the order of their code points. -/
theorem codePoints_ascend (d : Dictionary α) : (d.toList.map Prod.fst).Pairwise fun a b =>
    List.Lex (· < ·) (a.toList.map Char.toNat) (b.toList.map Char.toNat) :=
  List.pairwise_map.2 (d.ascending.imp fun less => Utf8.lex_codePoints_iff.2 (String.lt_iff.1 less))

end Dictionary

open Dictionary

/-- A tally is a sorted map, and nothing but that. After any inserts a key is mapped to what was
inserted for it last, and to nothing if there was no insert for it. The size is the number of different
keys. The entries are all the keys, each once and with its count, in the order of their UTF-8 bytes and
in that of their code points. Inserts that leave the same last count for every key make the same tally,
with the same entries and the same line, and others do not. -/
theorem Tally.ofList_canonical (inserts : List (String × Nat)) :
    let t : Tally := .ofList inserts
    (∀ key n, t.get? key = some n ↔ LastOf inserts key n) ∧
    (∀ key, t.get? key = none ↔ key ∉ inserts.map Prod.fst) ∧
    t.size = (inserts.map Prod.fst).dedup.length ∧
    (t.isEmpty = true ↔ t.size = 0) ∧
    (∀ key, (t.toList.map Prod.fst).count key = if key ∈ inserts.map Prod.fst then 1 else 0) ∧
    (∀ key n, (key, n) ∈ t.toList ↔ t.get? key = some n) ∧
    ((t.toList.map Prod.fst).Pairwise fun a b =>
      List.Lex (· < ·) (Utf8.encode a.toList) (Utf8.encode b.toList)) ∧
    ((t.toList.map Prod.fst).Pairwise fun a b =>
      List.Lex (· < ·) (a.toList.map Char.toNat) (b.toList.map Char.toNat)) ∧
    ∀ others : List (String × Nat),
      let u : Tally := .ofList others
      ((∀ key n, LastOf inserts key n ↔ LastOf others key n) ↔ t = u) ∧
      ((∀ key n, LastOf inserts key n ↔ LastOf others key n) →
        t.toList = u.toList ∧ lineBytes t.toValue = lineBytes u.toValue ∧
          ∃ line, render t.toValue = .ok line ∧ render u.toValue = .ok line) := by
  intro t
  refine ⟨fun _ _ => get?_ofList_eq_some_iff, fun _ => get?_ofList_eq_none_iff, size_ofList inserts, ?_,
    fun key => ?_, fun _ _ => mem_toList_iff, bytes_ascend t, codePoints_ascend t, fun others => ?_⟩
  · rw [isEmpty, size, List.isEmpty_iff, List.length_eq_zero_iff]
  · rw [(keys_nodup t).count]
    simp only [t, mem_keys_ofList]
  · refine ⟨ofList_eq_ofList_iff.symm, fun same => ?_⟩
    rw [← ofList_eq_ofList_iff.2 same]
    exact ⟨rfl, rfl, _, render_eq _, render_eq _⟩

/-- Two keys are put in twice, and in another order: what is left is the same line. A key beyond the basic
plane is the last one, although its first UTF-16 unit is the lesser one. -/
theorem Tally.ofList_canonical_overwritten :
    let inserts := [("\uff5e.py", 1), ("😀.py", 2), ("a.py", 5), ("\uff5e.py", 3)]
    let others := [("😀.py", 9), ("a.py", 5), ("😀.py", 2), ("\uff5e.py", 3)]
    (∀ key n, LastOf inserts key n ↔ LastOf others key n) ∧
    lineBytes (Tally.toValue (.ofList inserts)) = lineBytes (Tally.toValue (.ofList others)) ∧
    (ofList inserts).toList = [("a.py", 5), ("\uff5e.py", 3), ("😀.py", 2)] := by
  intro inserts others
  have same : ∀ key n, LastOf inserts key n ↔ LastOf others key n :=
    ofList_eq_ofList_iff.1 (by decide)
  obtain ⟨-, -, -, -, -, -, -, -, alike⟩ := Tally.ofList_canonical inserts
  exact ⟨same, ((alike others).2 same).2.1, by decide⟩

end DefTally
